import Codey.Lib.Fields
import Codey.Lib.Lists
import Codey.Providers.RequestCodec

/-!
# The round trip of a request

The payload of a request is decoded exactly when the request is admissible, and then to the
request with its schemas frozen.
-/

namespace Codey

namespace RequestCodec

open Toolchain TextResults

/-! ### Payloads -/

def ProviderRequestOptions.kwargs (o : ProviderRequestOptions) : Fields :=
  o.present.map fun name => (name, o.json name)

namespace ProviderRequest

def args : ProviderRequest → List Json
  | sendText prompt _ => [.str prompt]
  | sendTurn prompt tools _ => [.str prompt, (tools.map toolsToJson).getD .null]
  | sendToolResults results tools _ =>
    [resultsToJson results, (tools.map toolsToJson).getD .null]
  | acknowledgeToolResults results tools _ => [resultsToJson results, toolsToJson tools]
  | sendToolResultsBound results window tools _ =>
    [resultsToJson results, window.toPayload, (tools.map toolsToJson).getD .null]
  | acknowledgeToolResultsBound results window tools _ =>
    [resultsToJson results, window.toPayload, toolsToJson tools]

def payload (r : ProviderRequest) : Json :=
  .obj [("args", .arr r.args), ("kwargs", .obj r.options.kwargs), ("method", .str r.method.name)]

end ProviderRequest

def ProviderRequestOptions.Known (o : ProviderRequestOptions) : Prop :=
  o.supplied ⊆ optionNames.toFinset

lemma jsonValue_eq_ok {x y : Json} :
    jsonValue x = .ok y ↔ FitsValue defaultJsonLimits x ∧ y = x :=
  encodeTransportValue_eq_ok

lemma mapM_jsonValue_eq_ok {xs ys : List Json} :
    xs.mapM jsonValue = .ok ys ↔ (∀ x ∈ xs, FitsValue defaultJsonLimits x) ∧ ys = xs := by
  have hmap : xs.mapM jsonValue = .ok ys ↔
      (∀ x ∈ xs, FitsValue defaultJsonLimits x) ∧ ys = xs.map id :=
    mapM_eq_ok_iff fun _ _ => jsonValue_eq_ok
  rwa [List.map_id] at hmap

lemma providerOptionsPayload_eq_ok {o : ProviderRequestOptions} {kwargs : Fields} :
    providerOptionsPayload o = .ok kwargs ↔
      o.Known ∧ (∀ name ∈ o.present, FitsValue defaultJsonLimits (o.json name)) ∧
        kwargs = o.kwargs := by
  rw [providerOptionsPayload, ProviderRequestOptions.Known]
  by_cases hknown : o.supplied ⊆ optionNames.toFinset
  · rw [if_neg (not_not.mpr hknown), mapM_eq_ok_iff (P := fun name =>
      FitsValue defaultJsonLimits (o.json name)) (g := fun name => (name, o.json name))]
    · simp only [hknown, true_and]
      rfl
    · intro name member
      cases hvalue : jsonValue (o.json name) with
      | error message =>
        simp only [Except.map, reduceCtorEq, false_iff, not_and]
        intro hfits
        rw [jsonValue_eq_ok.mpr ⟨hfits, rfl⟩] at hvalue
        cases hvalue
      | ok x =>
        obtain ⟨hfits, rfl⟩ := jsonValue_eq_ok.mp hvalue
        simp only [Except.map, Except.ok.injEq, hfits, true_and, eq_comm]
  · rw [if_pos hknown]
    simp [hknown]

/-- Every argument fits on its own. -/
def ProviderRequest.ArgsFit (r : ProviderRequest) : Prop :=
  ∀ x ∈ r.args, FitsValue defaultJsonLimits x

variable {r : ProviderRequest}

lemma encodeArgs_eq_ok {args : List Json} (h : encodeArgs r = .ok args) : args = r.args := by
  cases r with
  | sendText prompt o => exact (Except.ok.inj h).symm
  | sendTurn prompt tools o =>
    rw [encodeArgs] at h
    cases htools : [(tools.map toolsToJson).getD .null].mapM jsonValue with
    | error message =>
      rw [htools] at h
      cases h
    | ok rest =>
      rw [htools, (mapM_jsonValue_eq_ok.mp htools).2] at h
      exact (Except.ok.inj h).symm
  | sendToolResults results tools o => exact (mapM_jsonValue_eq_ok.mp h).2
  | acknowledgeToolResults results tools o => exact (mapM_jsonValue_eq_ok.mp h).2
  | sendToolResultsBound results window tools o => exact (mapM_jsonValue_eq_ok.mp h).2
  | acknowledgeToolResultsBound results window tools o => exact (mapM_jsonValue_eq_ok.mp h).2

lemma encodeArgs_of_fits (h : r.ArgsFit) : encodeArgs r = .ok r.args := by
  cases r with
  | sendText prompt o => rfl
  | sendTurn prompt tools o =>
    have htools := mapM_jsonValue_eq_ok.mpr
      ⟨fun x hx => h x (List.mem_cons_of_mem _ hx), rfl⟩
    rw [encodeArgs, htools]
    rfl
  | sendToolResults results tools o => exact mapM_jsonValue_eq_ok.mpr ⟨h, rfl⟩
  | acknowledgeToolResults results tools o => exact mapM_jsonValue_eq_ok.mpr ⟨h, rfl⟩
  | sendToolResultsBound results window tools o => exact mapM_jsonValue_eq_ok.mpr ⟨h, rfl⟩
  | acknowledgeToolResultsBound results window tools o => exact mapM_jsonValue_eq_ok.mpr ⟨h, rfl⟩

lemma encode_eq_ok {p : Json} (h : encodeProviderRequest r = .ok p) :
    r.options.Known ∧ p = r.payload := by
  obtain ⟨args, hargs, h⟩ := except_bind_eq_ok.mp h
  obtain ⟨kwargs, hkwargs, h⟩ := except_bind_eq_ok.mp h
  obtain rfl := encodeArgs_eq_ok hargs
  obtain ⟨hknown, -, rfl⟩ := providerOptionsPayload_eq_ok.mp hkwargs
  exact ⟨hknown, (Except.ok.inj h).symm⟩

lemma fits_args (h : FitsValue defaultJsonLimits r.payload) : r.ArgsFit := by
  have hargs : FitsValue defaultJsonLimits (.arr r.args) :=
    h.of_mem_obj (show ("args", Json.arr r.args) ∈ _ by simp)
  exact fun x hx => hargs.of_mem_arr hx

lemma fits_kwargs (h : FitsValue defaultJsonLimits r.payload) :
    FitsValue defaultJsonLimits (.obj r.options.kwargs) :=
  h.of_mem_obj (show ("kwargs", Json.obj r.options.kwargs) ∈ _ by simp)

variable {name : String}

lemma fits_json {o : ProviderRequestOptions} (h : FitsValue defaultJsonLimits (.obj o.kwargs))
    (hname : name ∈ o.present) : FitsValue defaultJsonLimits (o.json name) :=
  h.of_mem_obj (show (name, o.json name) ∈ _ from List.mem_map.mpr ⟨name, hname, rfl⟩)

lemma encode_of_fits (hknown : r.options.Known) (h : FitsValue defaultJsonLimits r.payload) :
    encodeProviderRequest r = .ok r.payload := by
  have hkwargs := providerOptionsPayload_eq_ok.mpr
    ⟨hknown, fun name hname => fits_json (fits_kwargs h) hname, rfl⟩
  rw [encodeProviderRequest, encodeArgs_of_fits (fits_args h), hkwargs]
  rfl

/-! ### Tools and results -/

def ProviderToolDefinition.freeze (t : ProviderToolDefinition) : ProviderToolDefinition :=
  { t with parameters := SchemaValue.freezeMembers t.parameters }

lemma ProviderToolDefinition.toJson_freeze (t : ProviderToolDefinition) :
    t.freeze.toJson = t.toJson := by
  simp only [toJson, freeze, SchemaValue.toJsonMembers_freeze]

lemma decodeObject_eq_ok {x : Json} {fields : Fields} :
    decodeObject x = .ok fields ↔ FitsValue defaultJsonLimits x ∧ x = .obj fields :=
  decodeJsonObject_json

lemma decodeTool_toJson {t : ProviderToolDefinition} (h : FitsValue defaultJsonLimits t.toJson) :
    decodeTool t.toJson = .ok t.freeze := by
  have hrow := decodeObject_eq_ok.mpr ⟨h, rfl⟩
  have hmem : ("parameters", Json.obj (SchemaValue.toJsonMembers t.parameters)) ∈
      [("description", Json.str t.description), ("name", .str t.name),
        ("parameters", .obj (SchemaValue.toJsonMembers t.parameters))] := by simp
  have hparameters := decodeObject_eq_ok.mpr ⟨h.of_mem_obj hmem, rfl⟩
  simp only [decodeTool, hrow, bind, Except.bind]
  rw [if_neg (by simp)]
  simp only [member, Fields.get?_cons, String.reduceEq, if_true, if_false, Option.getD_some,
    hparameters, requireJsonString_str, SchemaValue.freezeMembers_ofJson_toJson]
  rfl

lemma decodeTools_toolsToJson {tools : List ProviderToolDefinition}
    (h : FitsValue defaultJsonLimits (toolsToJson tools)) :
    decodeTools (toolsToJson tools) = .ok (some (tools.map .freeze)) := by
  have hrows : (tools.map ProviderToolDefinition.toJson).mapM decodeTool =
      .ok (tools.map .freeze) := by
    rw [List.mapM_map]
    exact mapM_eq_ok fun t ht => decodeTool_toJson (h.of_mem_arr (List.mem_map.mpr ⟨t, ht, rfl⟩))
  rw [toolsToJson, decodeTools, hrows]
  rfl

lemma decodeTools_optional {tools : Option (List ProviderToolDefinition)}
    (h : FitsValue defaultJsonLimits ((tools.map toolsToJson).getD .null)) :
    decodeTools ((tools.map toolsToJson).getD .null) = .ok (tools.map (·.map .freeze)) := by
  cases tools with
  | none => rfl
  | some tools => exact decodeTools_toolsToJson h

lemma decodeResult_toJson {r : Api.ProviderToolResult}
    (h : FitsValue defaultJsonLimits (resultToJson r)) : decodeResult (resultToJson r) = .ok r := by
  have hrow := decodeObject_eq_ok.mpr ⟨h, rfl⟩
  have huser : decodeUser ((r.userContent.map .str).getD .null) = .ok r.userContent := by
    cases r.userContent <;> rfl
  simp only [decodeResult, hrow, bind, Except.bind]
  rw [if_neg (by simp)]
  simp only [member, Fields.get?_cons, String.reduceEq, if_true, if_false, Option.getD_some,
    huser, requireJsonString_str]

lemma decodeResults_resultsToJson {results : List Api.ProviderToolResult}
    (h : FitsValue defaultJsonLimits (resultsToJson results)) :
    decodeResults (resultsToJson results) = .ok results := by
  have hrows : (results.map resultToJson).mapM decodeResult = .ok results := by
    rw [List.mapM_map]
    have := mapM_eq_ok (g := id) fun r hr =>
      decodeResult_toJson (h.of_mem_arr (List.mem_map.mpr ⟨r, hr, rfl⟩))
    rwa [List.map_id] at this
  exact hrows

/-! ### Options -/

lemma mem_changed {v : OptionValues} : name ∈ v.changed ↔ (name, true) ∈ v.changedNames := by
  simp [OptionValues.changed]

lemma json_of_unchanged (v : OptionValues) :
    ∀ p ∈ v.changedNames, p.2 = false → v.json p.1 = OptionValues.json {} p.1 := by
  simp +contextual [OptionValues.changedNames, OptionValues.json]

lemma json_of_not_changed {v : OptionValues} (hname : name ∈ optionNames) (h : name ∉ v.changed) :
    v.json name = OptionValues.json {} name := by
  have hnames : optionNames = v.changedNames.map (·.1) := rfl
  rw [hnames, List.mem_map] at hname
  obtain ⟨⟨name, changed⟩, hmem, rfl⟩ := hname
  cases changed with
  | true => exact absurd (mem_changed.mpr hmem) h
  | false => exact json_of_unchanged v _ hmem rfl

lemma get?_map_names (names : List String) (f : String → Json) (key : String) :
    Fields.get? (names.map fun name => (name, f name)) key =
      if key ∈ names then some (f key) else none := by
  induction names with
  | nil => simp
  | cons name names ih =>
    rw [List.map_cons, Fields.get?_cons, ih]
    by_cases hkey : name = key
    · simp [hkey]
    · simp [hkey, Ne.symm hkey]

lemma mem_present {o : ProviderRequestOptions} :
    name ∈ o.present ↔ name ∈ optionNames ∧ name ∈ o.supplied := by
  simp [ProviderRequestOptions.present]

lemma getD_kwargs (o : ProviderRequestOptions) (hname : name ∈ optionNames) :
    (o.kwargs.get? name).getD (OptionValues.json {} name) = o.json name := by
  rw [ProviderRequestOptions.kwargs, get?_map_names]
  split_ifs with hpresent
  · rfl
  · refine (json_of_not_changed hname fun hchanged => hpresent ?_).symm
    exact mem_present.mpr ⟨hname, o.covers hchanged⟩

lemma fits_default : ∀ name ∈ optionNames,
    FitsValue defaultJsonLimits (OptionValues.json {} name) := by
  decide +kernel

lemma fits_option {o : ProviderRequestOptions} (h : FitsValue defaultJsonLimits (.obj o.kwargs))
    (hname : name ∈ optionNames) : FitsValue defaultJsonLimits (o.json name) := by
  by_cases hpresent : name ∈ o.present
  · exact fits_json h hpresent
  · rw [json_of_not_changed hname fun hchanged =>
      hpresent (mem_present.mpr ⟨hname, o.covers hchanged⟩)]
    exact fits_default name hname

lemma decodeTimeout_eq_ok {timeout timeout' : Option Seconds} :
    decodeTimeout ((timeout.map Seconds.toJson).getD .null) = .ok timeout' ↔
      (∀ s ∈ timeout, s.Admissible) ∧ timeout' = timeout := by
  cases timeout with
  | none => simp [decodeTimeout, eq_comm]
  | some s =>
    have hseconds : seconds? s.toJson = some s := by cases s <;> rfl
    have hne : s.toJson ≠ .null := by cases s <;> simp [Seconds.toJson]
    by_cases hs : s.Admissible <;> simp [decodeTimeout, hseconds, hne, hs, eq_comm]

lemma decodeOptional_eq_ok {row : Option Fields}
    (h : FitsValue defaultJsonLimits ((row.map .obj).getD .null)) :
    decodeOptional ((row.map .obj).getD .null) = .ok row := by
  cases row with
  | none => rfl
  | some row =>
    have hrow := decodeObject_eq_ok.mpr ⟨h, rfl⟩
    simp only [Option.map_some, Option.getD_some] at hrow ⊢
    rw [decodeOptional, if_neg (by simp), hrow]
    rfl

section

variable {digest : Text → String} {listText : List String → String}

variable {prompt : String}

lemma decodeSpanOption_eq_ok {spans spans' : Option (List TextResultSpan)} :
    decodeSpanOption digest prompt ((spans.map payloads).getD .null) = .ok spans' ↔
      (∀ s ∈ spans, SpansFit digest prompt.toList 0 s) ∧ spans' = spans := by
  cases spans with
  | none => simp [decodeSpanOption, eq_comm]
  | some spans =>
    have hne : payloads spans ≠ .null := by simp [payloads]
    simp only [Option.map_some, Option.getD_some, decodeSpanOption, if_neg hne, Option.mem_def,
      Option.some.injEq, forall_eq']
    cases hspans : decodeTextResultSpans digest prompt.toList (payloads spans) with
    | error message =>
      simp only [Except.map, reduceCtorEq, false_iff, not_and]
      intro hfit
      rw [decodeTextResultSpans_payloads.mpr ⟨hfit, rfl⟩] at hspans
      cases hspans
    | ok decoded =>
      obtain ⟨hfit, rfl⟩ := decodeTextResultSpans_payloads.mp hspans
      simp [Except.map, hfit, eq_comm]

/-- The values of the options are valid for the prompt. -/
structure OptionValues.Valid (digest : Text → String) (prompt : String) (v : OptionValues) :
    Prop where
  timeout : ∀ s ∈ v.timeout, s.Admissible
  history : CountFits v.toolCallHistoryGroups
  output : CountFits v.outputTokenLimit
  spans : ∀ s ∈ v.toolCallResults, SpansFit digest prompt.toList 0 s

variable {o : ProviderRequestOptions}

lemma decodeOptionValues_kwargs {v : OptionValues}
    (h : FitsValue defaultJsonLimits (.obj o.kwargs)) :
    decodeOptionValues digest prompt o.kwargs = .ok v ↔
      o.toOptionValues.Valid digest prompt ∧ v = o.toOptionValues := by
  have hschema : decodeOptional (o.json "tool_call_schema") = .ok o.toolCallSchema :=
    decodeOptional_eq_ok (fits_option h (show "tool_call_schema" ∈ optionNames by decide))
  have hcommit : decodeOptional (o.json "delivery_commit") = .ok o.deliveryCommit :=
    decodeOptional_eq_ok (fits_option h (show "delivery_commit" ∈ optionNames by decide))
  have htimeout (timeout) : decodeTimeout (o.json "timeout") = .ok timeout ↔ _ :=
    decodeTimeout_eq_ok
  have hspans (spans) :
      decodeSpanOption digest prompt (o.json "tool_call_results") = .ok spans ↔ _ :=
    decodeSpanOption_eq_ok
  have hhistory :
      requireJsonInteger (o.json "tool_call_history_groups") "tool_call_history_groups" =
        .ok o.toolCallHistoryGroups := rfl
  have houtput : requireJsonInteger (o.json "output_token_limit") "output_token_limit" =
    .ok o.outputTokenLimit := rfl
  have hobservations :
      requireJsonString (o.json "tool_call_observations") "tool_call_observations" =
        .ok o.toolCallObservations := rfl
  have hcall : requireJsonBoolean (o.json "require_tool_call") "require_tool_call" =
    .ok o.requireToolCall := rfl
  have hjson : requireJsonBoolean (o.json "tool_call_json") "tool_call_json" =
    .ok o.toolCallJson := rfl
  have hcontract : requireJsonString (o.json "tool_call_contract") "tool_call_contract" =
    .ok o.toolCallContract := rfl
  have hget {name : String} (hname : name ∈ optionNames) := getD_kwargs o hname
  simp only [decodeOptionValues]
  rw [hget (by decide), hget (by decide), hget (by decide), hget (by decide), hget (by decide),
    hget (by decide), hget (by decide), hget (by decide), hget (by decide), hget (by decide)]
  simp only [hhistory, houtput, hobservations, hcall, hjson, hcontract, hschema, hcommit]
  constructor
  · intro hv
    obtain ⟨timeout, hok, hv⟩ := except_bind_eq_ok.mp hv
    obtain ⟨hadmissible, rfl⟩ := (htimeout timeout).mp hok
    simp only [bind, Except.bind] at hv
    split_ifs at hv with hcounts
    obtain ⟨hhist, hout⟩ := not_or.mp hcounts
    cases hdecoded : decodeSpanOption digest prompt (o.json "tool_call_results") with
    | error message =>
      rw [hdecoded] at hv
      cases hv
    | ok spans =>
      obtain ⟨hfit, rfl⟩ := (hspans spans).mp hdecoded
      rw [hdecoded] at hv
      exact ⟨⟨hadmissible, not_not.mp hhist, not_not.mp hout, hfit⟩, (Except.ok.inj hv).symm⟩
  · rintro ⟨⟨hadmissible, hhist, hout, hfit⟩, rfl⟩
    have hcounts : ¬(¬CountFits o.toolCallHistoryGroups ∨ ¬CountFits o.outputTokenLimit) :=
      not_or.mpr ⟨not_not.mpr hhist, not_not.mpr hout⟩
    rw [(htimeout _).mpr ⟨hadmissible, rfl⟩]
    simp only [bind, Except.bind]
    rw [if_neg hcounts, (hspans _).mpr ⟨hfit, rfl⟩]

def ProviderRequestOptions.Allowed (o : ProviderRequestOptions) (m : Method) : Prop :=
  ∀ name ∈ o.supplied, name ∈ m.allowed

instance (o : ProviderRequestOptions) (m : Method) : Decidable (o.Allowed m) :=
  inferInstanceAs (Decidable (∀ name ∈ o.supplied, name ∈ m.allowed))

lemma allowed_subset (m : Method) : ∀ name ∈ m.allowed, name ∈ optionNames := by
  cases m <;> decide

variable {m : Method}

lemma ProviderRequestOptions.Allowed.known (h : o.Allowed m) : o.Known :=
  fun name hname => List.mem_toFinset.mpr (allowed_subset m name (h name hname))

lemma kwargs_names (o : ProviderRequestOptions) : o.kwargs.map Prod.fst = o.present := by
  simp [ProviderRequestOptions.kwargs, Function.comp_def]

lemma present_toFinset (h : o.Known) : o.present.toFinset = o.supplied := by
  ext name
  rw [List.mem_toFinset, mem_present]
  exact ⟨And.right, fun hname => ⟨List.mem_toFinset.mp (h hname), hname⟩⟩

lemma make_supplied (o : ProviderRequestOptions) :
    ProviderRequestOptions.make o.supplied o.toOptionValues = o := by
  obtain ⟨values, supplied, covers⟩ := o
  simp only [ProviderRequestOptions.make, Finset.union_eq_left.mpr covers]

/-- The options of a payload are read back, with their presence, when they are valid. -/
lemma decodeProviderOptions_kwargs {o o' : ProviderRequestOptions} (hknown : o.Known)
    (h : FitsValue defaultJsonLimits (.obj o.kwargs)) :
    decodeProviderOptions digest listText (.obj o.kwargs) m prompt = .ok o' ↔
      (o.Allowed m ∧ o.toOptionValues.Valid digest prompt) ∧ o' = o := by
  have hrow := decodeObject_eq_ok.mpr ⟨h, rfl⟩
  have hunknown : ((o.present.filter (· ∉ m.allowed)).dedup.insertionSort (· ≤ ·)) ≠ [] ↔
      ¬o.Allowed m := by
    rw [ne_eq, not_iff_not, ← List.length_eq_zero_iff, List.length_insertionSort,
      List.length_eq_zero_iff, List.dedup_eq_nil, List.filter_eq_nil_iff]
    simp only [decide_not, Bool.not_eq_true', decide_eq_false_iff_not, not_not]
    constructor
    · intro hall name hname
      exact hall name (mem_present.mpr ⟨List.mem_toFinset.mp (hknown hname), hname⟩)
    · exact fun hall name hname => hall name (mem_present.mp hname).2
  simp only [decodeProviderOptions, hrow, bind, Except.bind]
  rw [kwargs_names, present_toFinset hknown]
  by_cases hallowed : o.Allowed m
  · rw [if_neg (hunknown.not.mpr (not_not.mpr hallowed))]
    cases hvalues : decodeOptionValues digest prompt o.kwargs with
    | error message =>
      simp only [Except.map, reduceCtorEq, false_iff, not_and]
      rintro ⟨-, hvalid⟩
      rw [(decodeOptionValues_kwargs h).mpr ⟨hvalid, rfl⟩] at hvalues
      cases hvalues
    | ok values =>
      obtain ⟨hvalid, rfl⟩ := (decodeOptionValues_kwargs h).mp hvalues
      simp only [Except.map, make_supplied, Except.ok.injEq, hallowed, hvalid, and_self, true_and,
        eq_comm]
  · rw [if_pos (hunknown.mpr hallowed)]
    simp [hallowed]

/-! ### Requests -/

namespace ProviderRequest

/-- Freeze the schemas of the tools. -/
def freeze : ProviderRequest → ProviderRequest
  | sendText prompt o => .sendText prompt o
  | sendTurn prompt tools o => .sendTurn prompt (tools.map (·.map .freeze)) o
  | sendToolResults results tools o => .sendToolResults results (tools.map (·.map .freeze)) o
  | acknowledgeToolResults results tools o =>
    .acknowledgeToolResults results (tools.map .freeze) o
  | sendToolResultsBound results window tools o =>
    .sendToolResultsBound results window (tools.map (·.map .freeze)) o
  | acknowledgeToolResultsBound results window tools o =>
    .acknowledgeToolResultsBound results window (tools.map .freeze) o

def tools : ProviderRequest → List ProviderToolDefinition
  | sendText _ _ => []
  | sendTurn _ tools _ | sendToolResults _ tools _ | sendToolResultsBound _ _ tools _ =>
    tools.getD []
  | acknowledgeToolResults _ tools _ | acknowledgeToolResultsBound _ _ tools _ => tools

def Frozen (r : ProviderRequest) : Prop := ∀ t ∈ r.tools, t.freeze = t

lemma freeze_eq_self {r : ProviderRequest} (h : r.Frozen) : r.freeze = r := by
  have hlist {tools : List ProviderToolDefinition} (hall : ∀ t ∈ tools, t.freeze = t) :
      tools.map .freeze = tools := by
    conv_rhs => rw [← List.map_id tools]
    exact List.map_congr_left hall
  have hoption {tools : Option (List ProviderToolDefinition)}
      (hall : ∀ t ∈ tools.getD [], t.freeze = t) : tools.map (·.map .freeze) = tools := by
    cases tools with
    | none => rfl
    | some tools => exact congrArg some (hlist hall)
  cases r with
  | sendText prompt o => rfl
  | sendTurn prompt tools o => rw [freeze, hoption h]
  | sendToolResults results tools o => rw [freeze, hoption h]
  | acknowledgeToolResults results tools o =>
    have htools : tools.map .freeze = tools := hlist h
    rw [freeze, htools]
  | sendToolResultsBound results window tools o => rw [freeze, hoption h]
  | acknowledgeToolResultsBound results window tools o =>
    have htools : tools.map .freeze = tools := hlist h
    rw [freeze, htools]

/-- What the checks of the decoder ask of a request. -/
structure Admissible (digest : Text → String) (r : ProviderRequest) : Prop where
  allowed : r.options.Allowed r.method
  valid : r.options.toOptionValues.Valid digest r.prompt
  fits : FitsValue defaultJsonLimits r.payload

lemma toolsToJson_freeze (tools : List ProviderToolDefinition) :
    toolsToJson (tools.map .freeze) = toolsToJson tools := by
  simp [toolsToJson, Function.comp_def, ProviderToolDefinition.toJson_freeze]

lemma payload_freeze (r : ProviderRequest) : r.freeze.payload = r.payload := by
  have hoptional (tools : Option (List ProviderToolDefinition)) :
      ((tools.map (·.map .freeze)).map toolsToJson).getD .null =
        (tools.map toolsToJson).getD .null := by
    cases tools with
    | none => rfl
    | some tools => exact toolsToJson_freeze tools
  cases r <;> simp only [payload, freeze, args, options, method, hoptional, toolsToJson_freeze]

lemma options_freeze (r : ProviderRequest) : r.freeze.options = r.options := by
  cases r <;> rfl

end ProviderRequest

lemma pop_kwargs (o : ProviderRequestOptions) {key : String} (h : key ∉ optionNames) :
    o.kwargs.pop key = o.kwargs := by
  rw [Fields.pop_eq_filter, List.filter_eq_self]
  intro p hp
  obtain ⟨name, hname, rfl⟩ := List.mem_map.mp hp
  have : name ≠ key := fun heq => h (heq ▸ (mem_present.mp hname).1)
  simpa using this

lemma get?_kwargs (o : ProviderRequestOptions) {key : String} (h : key ∉ optionNames) :
    o.kwargs.get? key = none := by
  rw [ProviderRequestOptions.kwargs, get?_map_names, if_neg]
  exact fun hpresent => h (mem_present.mp hpresent).1

/-- The options are the last thing that is decoded. -/
lemma decodeProviderOptions_bind {g : ProviderRequestOptions → ProviderRequest}
    {r : ProviderRequest} (hknown : o.Known) (h : FitsValue defaultJsonLimits (.obj o.kwargs)) :
    (decodeProviderOptions digest listText (.obj o.kwargs) m prompt >>= fun options =>
        .ok (g options)) = .ok r ↔
      (o.Allowed m ∧ o.toOptionValues.Valid digest prompt) ∧ r = g o := by
  rw [except_bind_eq_ok]
  constructor
  · rintro ⟨o', hok, hr⟩
    obtain ⟨hvalid, rfl⟩ := (decodeProviderOptions_kwargs hknown h).mp hok
    exact ⟨hvalid, (Except.ok.inj hr).symm⟩
  · rintro ⟨hvalid, rfl⟩
    exact ⟨o, (decodeProviderOptions_kwargs hknown h).mpr ⟨hvalid, rfl⟩, rfl⟩

/-- An invocation whose arguments are decoded is decoded exactly when its options are valid. -/
lemma decodeInvocation_eq_ok {args : List Json} {arguments : Fields} {p t rs w : Json}
    {tools : Option (List ProviderToolDefinition)} {results : List Api.ProviderToolResult}
    {window : Option ProtocolWindowRef} {g : ProviderRequestOptions → ProviderRequest}
    {r : ProviderRequest} (hknown : o.Known) (h : FitsValue defaultJsonLimits (.obj o.kwargs))
    (hlength : ¬m.positional.length < args.length)
    (hbind : bindPositional m.positional args o.kwargs = .ok arguments)
    (htake : takeArguments m arguments = (p, t, rs, w, o.kwargs))
    (hprompt : decodePrompt m p = .ok prompt) (htools : decodeTools t = .ok tools)
    (hresults : decodeResultList m rs = .ok results) (hwindow : decodeWindow m w = .ok window)
    (hassemble : ∀ options, assemble m prompt tools results window options = .ok (g options)) :
    decodeInvocation digest listText m args o.kwargs = .ok r ↔
      (o.Allowed m ∧ o.toOptionValues.Valid digest prompt) ∧ r = g o := by
  refine Iff.trans ?_ (@decodeProviderOptions_bind digest listText _ _ _ _ _ hknown h)
  rw [decodeInvocation, if_neg hlength, hbind]
  simp only [htake, hprompt, htools, hresults, hwindow, hassemble, bind, Except.bind]

/-- Positional arguments are bound in front of the others, the last one first. -/
lemma bindPositional_append (names rest : List String) {values : List Json} {arguments : Fields}
    (hlength : values.length = names.length) (hnodup : names.Nodup)
    (h : ∀ name ∈ names, arguments.get? name = none) :
    bindPositional (names ++ rest) values arguments =
      .ok ((names.zip values).reverse ++ arguments) := by
  induction names generalizing values arguments with
  | nil =>
    obtain rfl := List.length_eq_zero_iff.mp hlength
    cases rest <;> rfl
  | cons name names ih =>
    obtain _ | ⟨value, values⟩ := values
    · cases hlength
    · obtain ⟨hname, hnodup⟩ := List.nodup_cons.mp hnodup
      have hfresh : ∀ other ∈ names, Fields.get? ((name, value) :: arguments) other = none := by
        intro other hother
        have hne : name ≠ other := fun heq => hname (heq ▸ hother)
        rw [Fields.get?_cons, if_neg hne]
        exact h other (List.mem_cons_of_mem _ hother)
      rw [List.cons_append, bindPositional, h name List.mem_cons_self,
        if_neg (by simp), ih (Nat.succ.inj hlength) hnodup hfresh]
      simp

def argumentNames : List String :=
  ["text", "prompt", "tools", "declared_tools", "results", "window_ref"]

lemma not_option_of_argument : ∀ key ∈ argumentNames, key ∉ optionNames := by decide

section

variable (o : ProviderRequestOptions) {p t rs w : Json}

lemma bindPositional_kwargs (names rest : List String) {values : List Json}
    (hlength : values.length = names.length) (hnodup : names.Nodup)
    (h : ∀ name ∈ names, name ∈ argumentNames) :
    bindPositional (names ++ rest) values o.kwargs =
      .ok ((names.zip values).reverse ++ o.kwargs) :=
  bindPositional_append names rest hlength hnodup fun name hname =>
    get?_kwargs o (not_option_of_argument name (h name hname))

lemma pop_kwargs_argument {key : String} (h : key ∈ argumentNames) : o.kwargs.pop key = o.kwargs :=
  pop_kwargs o (not_option_of_argument key h)

lemma takeArguments_send :
    takeArguments .send (("text", p) :: o.kwargs) = (p, .null, .null, .null, o.kwargs) := by
  have hpop := pop_kwargs_argument o (show "text" ∈ argumentNames by decide)
  simp [takeArguments, popMember, Method.promptKey, Method.toolsKey, Method.resultsKey,
    Method.windowKey, member, Fields.pop, hpop]

lemma takeArguments_sendTurn :
    takeArguments .sendTurn (("tools", t) :: ("prompt", p) :: o.kwargs) =
      (p, t, .null, .null, o.kwargs) := by
  have hprompt := pop_kwargs_argument o (show "prompt" ∈ argumentNames by decide)
  have htools := pop_kwargs_argument o (show "tools" ∈ argumentNames by decide)
  simp [takeArguments, popMember, Method.promptKey, Method.toolsKey, Method.resultsKey,
    Method.windowKey, member, Fields.pop, hprompt, htools]

lemma takeArguments_results {m : Method} {key : String} (hkey : m.toolsKey = some key)
    (hprompt : m.promptKey = none) (hresults : m.resultsKey = some "results")
    (hwindow : m.windowKey = none) (hname : key ∈ argumentNames) (hne : key ≠ "results") :
    takeArguments m ((key, t) :: ("results", rs) :: o.kwargs) =
      (.null, t, rs, .null, o.kwargs) := by
  have hpop := pop_kwargs_argument o hname
  have hpop' := pop_kwargs_argument o (show "results" ∈ argumentNames by decide)
  simp [takeArguments, popMember, hkey, hprompt, hresults, hwindow, member, Fields.pop, hpop, hpop',
    hne.symm]

lemma takeArguments_bound {m : Method} {key : String} (hkey : m.toolsKey = some key)
    (hprompt : m.promptKey = none) (hresults : m.resultsKey = some "results")
    (hwindow : m.windowKey = some "window_ref") (hname : key ∈ argumentNames)
    (hne : key ≠ "results" ∧ key ≠ "window_ref") :
    takeArguments m ((key, t) :: ("window_ref", w) :: ("results", rs) :: o.kwargs) =
      (.null, t, rs, w, o.kwargs) := by
  have hpop := pop_kwargs_argument o hname
  have hpop' := pop_kwargs_argument o (show "results" ∈ argumentNames by decide)
  have hpop'' := pop_kwargs_argument o (show "window_ref" ∈ argumentNames by decide)
  simp [takeArguments, popMember, hkey, hprompt, hresults, hwindow, member, Fields.pop, hpop, hpop',
    hpop'', hne.1.symm, hne.2.symm]

end

lemma args_length (r : ProviderRequest) : ¬r.method.positional.length < r.args.length := by
  cases r <;> simp [ProviderRequest.method, ProviderRequest.args, Method.positional]

lemma decodeWindow_toPayload (h : m.windowKey = some "window_ref") (window : ProtocolWindowRef) :
    decodeWindow m window.toPayload = .ok (some window) := by
  rw [decodeWindow, if_neg (by simp [h]), ProtocolWindowRef.fromPayload_toPayload]
  rfl

lemma decodeResultList_resultsToJson (hm : m.resultsKey = some "results")
    {results : List Api.ProviderToolResult}
    (h : FitsValue defaultJsonLimits (resultsToJson results)) :
    decodeResultList m (resultsToJson results) = .ok results := by
  rw [decodeResultList, if_neg (by simp [hm]), decodeResults_resultsToJson h]

/-- The invocation of a payload is decoded exactly when its options are valid. -/
lemma decodeInvocation_payload {r r' : ProviderRequest} (hknown : r.options.Known)
    (h : FitsValue defaultJsonLimits r.payload) :
    decodeInvocation digest listText r.method r.args r.options.kwargs = .ok r' ↔
      (r.options.Allowed r.method ∧ r.options.toOptionValues.Valid digest r.prompt) ∧
        r' = r.freeze := by
  have hargs := fits_args h
  have hkwargs := fits_kwargs h
  have hlength := args_length r
  cases r with
  | sendText prompt o =>
    exact decodeInvocation_eq_ok hknown hkwargs hlength
      (bindPositional_kwargs o ["text"] ["timeout"] rfl (by decide) (by decide))
      (takeArguments_send o) rfl rfl rfl rfl fun _ => rfl
  | sendTurn prompt tools o =>
    have htools := decodeTools_optional (hargs _ (List.mem_cons_of_mem _ List.mem_cons_self))
    exact decodeInvocation_eq_ok hknown hkwargs hlength
      (bindPositional_kwargs o ["prompt", "tools"] ["timeout"] rfl (by decide) (by decide))
      (takeArguments_sendTurn o) rfl htools rfl rfl fun _ => rfl
  | sendToolResults results tools o =>
    have hresults := decodeResultList_resultsToJson (m := .sendToolResults) rfl
      (hargs _ List.mem_cons_self)
    have htools := decodeTools_optional (hargs _ (List.mem_cons_of_mem _ List.mem_cons_self))
    exact decodeInvocation_eq_ok hknown hkwargs hlength
      (bindPositional_kwargs o ["results", "tools"] ["timeout"] rfl (by decide) (by decide))
      (takeArguments_results o rfl rfl rfl rfl (by decide) (by decide))
      rfl htools hresults rfl fun _ => rfl
  | acknowledgeToolResults results tools o =>
    have hresults := decodeResultList_resultsToJson (m := .acknowledgeToolResults) rfl
      (hargs _ List.mem_cons_self)
    have htools := decodeTools_toolsToJson (hargs _ (List.mem_cons_of_mem _ List.mem_cons_self))
    exact decodeInvocation_eq_ok hknown hkwargs hlength
      (bindPositional_kwargs o ["results", "declared_tools"] ["timeout"] rfl (by decide)
        (by decide))
      (takeArguments_results o rfl rfl rfl rfl (by decide) (by decide))
      rfl htools hresults rfl fun _ => rfl
  | sendToolResultsBound results window tools o =>
    have hresults := decodeResultList_resultsToJson (m := .sendToolResultsBound) rfl
      (hargs _ List.mem_cons_self)
    have htools := decodeTools_optional
      (hargs _ (List.mem_cons_of_mem _ (List.mem_cons_of_mem _ List.mem_cons_self)))
    exact decodeInvocation_eq_ok hknown hkwargs hlength
      (bindPositional_kwargs o ["results", "window_ref", "tools"] ["timeout", "delivery_commit",
        "tool_call_observations", "tool_call_history_groups", "output_token_limit",
        "require_tool_call"] rfl (by decide) (by decide))
      (takeArguments_bound o rfl rfl rfl rfl (by decide) (by decide))
      rfl htools hresults (decodeWindow_toPayload rfl window) fun _ => rfl
  | acknowledgeToolResultsBound results window tools o =>
    have hresults := decodeResultList_resultsToJson (m := .acknowledgeToolResultsBound) rfl
      (hargs _ List.mem_cons_self)
    have htools := decodeTools_toolsToJson
      (hargs _ (List.mem_cons_of_mem _ (List.mem_cons_of_mem _ List.mem_cons_self)))
    exact decodeInvocation_eq_ok hknown hkwargs hlength
      (bindPositional_kwargs o ["results", "window_ref", "declared_tools"] ["timeout"] rfl
        (by decide) (by decide))
      (takeArguments_bound o rfl rfl rfl rfl (by decide) (by decide))
      rfl htools hresults (decodeWindow_toPayload rfl window) fun _ => rfl

lemma ofName?_name (m : Method) : Method.ofName? m.name = some m := by
  cases m <;> decide

/-- The payload of a request is decoded exactly when the request is admissible. -/
lemma decode_payload {r r' : ProviderRequest} (hknown : r.options.Known) :
    decodeProviderRequest digest listText r.payload = .ok r' ↔
      r.Admissible digest ∧ r' = r.freeze := by
  by_cases hfits : FitsValue defaultJsonLimits r.payload
  · have hrow := decodeObject_eq_ok.mpr ⟨hfits, rfl⟩
    have hdecoded : decodeProviderRequest digest listText r.payload =
        decodeInvocation digest listText r.method r.args r.options.kwargs := by
      simp only [decodeProviderRequest, hrow, bind, Except.bind]
      rw [if_neg (by simp)]
      simp [member, ofName?_name]
    rw [hdecoded, decodeInvocation_payload hknown hfits]
    exact and_congr_left' ⟨fun h => ⟨h.1, h.2, hfits⟩, fun h => ⟨h.allowed, h.valid⟩⟩
  · constructor
    · intro h
      obtain ⟨row, hrow, -⟩ := except_bind_eq_ok.mp h
      exact absurd (decodeObject_eq_ok.mp hrow).1 hfits
    · rintro ⟨hadmissible, -⟩
      exact absurd hadmissible.fits hfits

/-- A request is encoded and decoded again exactly when the decoder's checks admit it, and then it
comes back, with the options that are present and its schemas frozen, and is encoded alike. -/
theorem decode_encode (digest : Text → String) (listText : List String → String)
    (r : ProviderRequest) :
    (r.Admissible digest ↔ ∃ p, encodeProviderRequest r = .ok p ∧
      decodeProviderRequest digest listText p = .ok r.freeze) ∧
    (r.Frozen → r.freeze = r) ∧
    ∀ p r', encodeProviderRequest r = .ok p → decodeProviderRequest digest listText p = .ok r' →
      r' = r.freeze ∧ r'.options = r.options ∧ encodeProviderRequest r' = .ok p := by
  refine ⟨⟨fun h => ?_, ?_⟩, ProviderRequest.freeze_eq_self, fun p r' hp hr' => ?_⟩
  · have hknown := h.allowed.known
    exact ⟨r.payload, encode_of_fits hknown h.fits, (decode_payload hknown).mpr ⟨h, rfl⟩⟩
  · rintro ⟨p, hp, hr⟩
    obtain ⟨hknown, rfl⟩ := encode_eq_ok hp
    exact ((decode_payload hknown).mp hr).1
  · obtain ⟨hknown, rfl⟩ := encode_eq_ok hp
    obtain ⟨hadmissible, rfl⟩ := (decode_payload hknown).mp hr'
    have hoptions := r.options_freeze
    have hpayload := r.payload_freeze
    refine ⟨rfl, hoptions, ?_⟩
    rw [← hpayload]
    exact encode_of_fits (by rw [hoptions]; exact hknown) (by rw [hpayload]; exact hadmissible.fits)

/-- A text request with a marked output and a schema that is absent. -/
theorem decode_encode_text :
    ∃ p, encodeProviderRequest (.sendText "see: done"
        (.make ∅ { timeout := some (.int 30)
                   toolCallJson := true
                   toolCallResults := some [⟨5, 9, "d", "ref", "shell", true, by decide⟩] })) =
      .ok p ∧
      decodeProviderRequest (fun _ => "d") (fun _ => "") p =
        .ok (.sendText "see: done" (.make ∅
          { timeout := some (.int 30)
            toolCallJson := true
            toolCallResults := some [⟨5, 9, "d", "ref", "shell", true, by decide⟩] })) :=
  (decode_encode (fun _ => "d") (fun _ => "") _).1.mp
    ⟨by decide +kernel,
      ⟨by decide +kernel, by decide, by decide, by decide +kernel⟩, by decide +kernel⟩

/-- A text request may be built with an option that only native requests take, and is refused. -/
theorem not_decode_encode_native_option :
    ¬∃ p, encodeProviderRequest (.sendText "hi" (.make ∅ { requireToolCall := true })) = .ok p ∧
      decodeProviderRequest (fun _ => "d") (fun _ => "") p =
        .ok (.sendText "hi" (.make ∅ { requireToolCall := true })) := by
  rintro ⟨p, hp, hr⟩
  obtain ⟨hknown, rfl⟩ := encode_eq_ok hp
  obtain ⟨hadmissible, -⟩ := (decode_payload hknown).mp hr
  have := hadmissible.allowed "require_tool_call" (by decide +kernel)
  exact absurd this (by decide)

end

end RequestCodec

end Codey
