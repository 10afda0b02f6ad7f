import Codey.Lib.Fields
import Codey.Protocols.JsonScanner
import Codey.Toolchain.JsonValue

/-!
# Text turns

The decoder of the text tool protocol: a reply that is a sequence of JSON objects asks for tools,
every other reply is an answer or an error.
-/

namespace Codey

namespace Protocols

open JsonText Toolchain

def maxTextRequests : Nat := 8

structure TextRequest where
  tool : String
  args : Fields
  deriving DecidableEq

structure TextError where
  message : String
  kind : String := "invalid_args"
  tool : String := ""
  deriving DecidableEq

inductive DecodedTextTurn where
  | requests (items : List TextRequest)
  | answer (text : List Char)
  | error (e : TextError)
  deriving DecidableEq

structure JsonDecodeError where
  msg : String
  pos : Nat
  lineno : Nat
  colno : Nat

/-- What `json.loads` raises: the second stands for `ValueError` and `RecursionError`. -/
inductive LoadError where
  | decode (exc : JsonDecodeError)
  | limit

/-- What the language leaves open: the finite value of a number with a fraction or an exponent,
whether a text is too much for its reader, what the reader raises for a text that spells nothing, and
how it prints and folds. -/
structure TextHost where
  float : List Char → Option Rat
  overLimit : List Char → Bool
  refused : List Char → LoadError
  str : Json → String
  lower : String → String

variable (host : TextHost)

/-- `json.loads` of a text without white space around it. -/
def loads (text : List Char) : Except LoadError Sent :=
  match spelled host.float text with
  | some value =>
    if host.overLimit text then .error .limit
    else
      match value with
      | some value => .ok (.json value)
      | none => .ok (.foreign "JSON cannot encode the value")
  | none => .error (host.refused text)

def toolAndArgs (obj : Fields) : TextRequest :=
  let tool := if obj.truthy "tool" then
      match (obj.get? "tool").getD .null with
      | .str text => text
      | value => host.str value
    else ""
  { tool := host.lower (String.ofList (strip tool.toList))
    args := match (obj.get? "args").getD .null with
      | .obj args => args
      | .null => obj.pop "tool"
      | _ => [] }

/-! ### Errors -/

def expect (token : String) (text : List Char) : Option (List Char) :=
  if token.toList.isPrefixOf text then some (text.drop token.toList.length) else none

def nameStart (ch : Char) : Bool := 'a' ≤ ch && ch ≤ 'z'

def nameChar (ch : Char) : Bool := nameStart ch || ch.isDigit || ch = '_'

/-- The tool that the first field of a malformed request names. -/
def literalTool (source : List Char) : Option String := do
  let rest ← expect "\x7b" source
  let rest ← expect "\"tool\"" (rest.dropWhile blank)
  let rest ← expect ":" (rest.dropWhile blank)
  let rest ← expect "\"" (rest.dropWhile blank)
  let name := rest.takeWhile nameChar
  let rest ← expect "\"" (rest.dropWhile nameChar)
  let next := (rest.dropWhile blank).head?
  if name.head?.any nameStart && (next = some ',' || next = some '\x7d') then
    some (String.ofList name)
  else none

/-- The advice for a failure. -/
def errorAdvice (source : List Char) (exc : JsonDecodeError) : String :=
  if (source.rdropWhile blank).length ≤ exc.pos
      ∧ ["Expecting ',' delimiter", "Expecting property name", "Expecting value"].any
        (·.toList.isPrefixOf exc.msg.toList) then
    " The reply ended before the JSON request was complete. Close every opened object and array,"
      ++ " including the outer tool request object. Resend the complete request; do not send only"
      ++ " its missing suffix."
  else if "Invalid control character".toList.isPrefixOf exc.msg.toList then
    " Escape line breaks and tabs inside JSON strings as \\n, \\r and \\t;"
      ++ " for example, \"content\":\"first line\\nsecond line\\n\"."
  else if "Expecting ',' delimiter".toList.isPrefixOf exc.msg.toList
      ∧ (source[exc.pos]? = some '\x7d' ∨ source[exc.pos]? = some ']') then
    " The closing delimiter does not match the argument nesting. Close arrays with ] and objects "
      ++ "with \x7d in reverse opening order, including the outer tool request object. "
      ++ "Resend the complete request; do not send only a closing suffix."
  else if "Expecting ':' delimiter".toList.isPrefixOf exc.msg.toList then
    " Every object member must be \"name\":value. Do not append unnamed string fragments "
      ++ "after a field or concatenate adjacent quoted strings; JSON has no implicit string "
      ++ "concatenation. Put the complete value inside one quoted string for its named field, "
      ++ "for example \x7b\"query\":\"topic A topic B\"\x7d. Use separate tool turns for separate "
      ++ "queries."
  else
    " Inside a JSON string, escape each double quote as \\\" and each literal backslash as \\\\."
      ++ " For embedded JavaScript, write valid JavaScript first, then JSON-encode the request "
      ++ "once. An unescaped quote can end the string before the reported error position."

/-- The line of the source around a failure. -/
def excerpt (source : List Char) (pos : Nat) : Nat × List Char :=
  let before := source.take pos
  let line := before.length - (before.reverse.takeWhile (· ≠ '\n')).length
  let start := max line (pos - 60)
  let stop := match (source.drop pos).findIdx? (· = '\n') with
    | some offset => pos + offset
    | none => source.length
  (start, slice source start (min stop (pos + 60)))

def jsonError (source : List Char) (exc : JsonDecodeError) : TextError :=
  let (start, shown) := excerpt source exc.pos
  { message := "invalid JSON at line " ++ toString exc.lineno ++ ", column " ++ toString exc.colno
      ++ ": " ++ exc.msg ++ "." ++ errorAdvice source exc
      ++ "\nSource excerpt (starting at character " ++ toString (start + 1) ++ "):\n"
      ++ String.ofList shown ++ "\nReported error is character "
      ++ toString ((exc.pos : Int) - start + 1) ++ " within this excerpt. "
      ++ "No tool in this reply was executed. Resend the request with correct JSON syntax and "
      ++ "escaping; preserve its values."
    kind := "invalid_json", tool := (literalTool source).getD "" }

def limitError : TextError :=
  { message := "invalid JSON: value exceeds decoder limits", kind := "invalid_json" }

def noJson : TextError := { message := "no JSON tool call found", kind := "no_json" }

/-! ### Decoding -/

/-- The object of a span. A value that is no object is passed over. -/
def decodeSpan (text : List Char) : Except TextError (List Fields) :=
  match loads host text with
  | .error (.decode exc) => .error (jsonError text exc)
  | .error .limit => .error limitError
  | .ok (.json (.obj members)) =>
    match decodeJsonObject defaultJsonLimits (.json (.obj members)) with
    | .ok obj => .ok [obj]
    | .error _ => .error limitError
  | .ok (.json _) => .ok []
  | .ok (.foreign message) =>
    match decodeJsonObject defaultJsonLimits (.foreign message) with
    | .ok obj => .ok [obj]
    | .error _ => .error limitError

/-- The objects of the spans, or the first error among them. -/
def decodeSpans : List (List Char) → Except TextError (List Fields)
  | [] => .ok []
  | text :: texts => do
    let first ← decodeSpan host text
    let rest ← decodeSpans texts
    pure (first ++ rest)

/-- `_json_objects`; `none` for a text that is no sequence of objects. -/
def jsonObjects (text : List Char) : Except TextError (Option (List Fields)) :=
  let source := strip text
  if "```".toList.isPrefixOf source then .ok none
  else
    match balancedJsonSpans source with
    | [] => .ok none
    | first :: rest =>
      let last := (first :: rest).getLast (List.cons_ne_nil _ _)
      if strip (slice source 0 first.1) ≠ [] ∨ strip (source.drop last.2) ≠ [] then .ok none
      else if ((first :: rest).zip rest).any fun pair =>
          strip (slice source pair.1.2 pair.2.1) ≠ [] then .ok none
      else do
        let objects ← decodeSpans host ((first :: rest).map fun span => slice source span.1 span.2)
        pure (some objects)

/-- A reply without requests. -/
def decodeOther (source : List Char) : DecodedTextTurn :=
  if source = [] then .error noJson
  else if "<|tool_call>".toList.isPrefixOf source then .error noJson
  else if source.head? = some '\x7b' ∨ source.head? = some '[' then
    match loads host source with
    | .error (.decode exc) => .error (jsonError source exc)
    | .error .limit => .error limitError
    | .ok _ => .answer source
  else .answer source

/-- `"tool" in obj` -/
def namesTool (obj : Fields) : Bool := (obj.get? "tool").isSome

def decodeTextTurn (text : List Char) : DecodedTextTurn :=
  let source := strip text
  match jsonObjects host source with
  | .error e => .error e
  | .ok none | .ok (some []) => decodeOther host source
  | .ok (some objects) =>
    if objects.all fun obj => !namesTool obj then
      if 1 < objects.length then
        .error { message := "incomplete or malformed JSON response", kind := "invalid_json" }
      else .answer source
    else if maxTextRequests < objects.length then
      .error
        { message := "too many native tool calls in one turn (" ++ toString objects.length
            ++ "); send at most " ++ toString maxTextRequests
          kind := "too_many_tools" }
    else .requests (objects.map (toolAndArgs host))

/-! ### Sequences of objects -/

/-- The text spells the object, and the object is within the limits of the decoder. -/
structure Decodes (part : List Char) (obj : Fields) : Prop where
  spelled : spelled host.float part = some (some (.obj obj))
  read : host.overLimit part = false
  decoded : decodeJsonObject defaultJsonLimits (.json (.obj obj)) = .ok obj

structure Asks (objects : List Fields) : Prop where
  count : objects.length ≤ maxTextRequests
  tool : ∃ obj ∈ objects, namesTool obj = true

/-- The text that stands for the name of a tool: a value that counts as false is no name. -/
inductive Named (host : TextHost) (obj : Fields) : String → Prop
  | text {name : String} (h : obj.get? "tool" = some (.str name)) : Named host obj name
  | none (h : obj.get? "tool" = none) : Named host obj ""
  | printed {value : Json} (h : obj.get? "tool" = some value) (htext : value.str? = none)
      (htrue : value.truthy = true) : Named host obj (host.str value)
  | blank {value : Json} (h : obj.get? "tool" = some value) (htext : value.str? = none)
      (hfalse : value.truthy = false) : Named host obj ""

/-- The arguments of a request: the object under `args`, or the other members when there is none. A
value that is no object gives none. -/
inductive Given (obj : Fields) : Fields → Prop
  | args {args : Fields} (h : obj.get? "args" = some (.obj args)) : Given obj args
  | rest (h : obj.get? "args" = none ∨ obj.get? "args" = some .null) :
      Given obj (obj.filter fun member => member.1 ≠ "tool")
  | odd {value : Json} (h : obj.get? "args" = some value) (hnull : value ≠ .null)
      (hobj : ∀ args, value ≠ .obj args) : Given obj []

/-- What an object asks for. -/
structure Says (host : TextHost) (obj : Fields) (item : TextRequest) : Prop where
  tool : ∃ name, Named host obj name ∧ item.tool = host.lower (String.ofList (strip name.toList))
  args : Given obj item.args

variable {host} {part text source : List Char} {parts : List (List Char)} {obj : Fields}
  {objects : List Fields}

lemma Decodes.braced (h : Decodes host part obj) : Braced part := spelled_obj h.spelled

lemma braced_of_decodes (h : List.Forall₂ (Decodes host) parts objects) :
    ∀ part ∈ parts, Braced part := by
  induction h with
  | nil => simp
  | cons hpart _ ih => exact List.forall_mem_cons.mpr ⟨hpart.braced, ih⟩

lemma Decodes.decodeSpan (h : Decodes host part obj) : decodeSpan host part = .ok [obj] := by
  have hloads : loads host part = .ok (.json (.obj obj)) := by
    rw [loads, h.spelled]
    dsimp only
    exact if_neg (by simp [h.read])
  rw [Protocols.decodeSpan, hloads]
  dsimp only
  rw [h.decoded]

lemma decodeSpans_of_decodes (h : List.Forall₂ (Decodes host) parts objects) :
    decodeSpans host parts = .ok objects := by
  induction h with
  | nil => rfl
  | cons hpart _ ih =>
    rw [decodeSpans, hpart.decodeSpan, ih]
    rfl

/-- A text that starts with a brace spells nothing but an object. -/
lemma obj_of_brace {float : List Char → Option Rat} {value : Json}
    (h : JsonText.spelled float text = some (some value)) (hbrace : text.head? = some '\x7b') :
    ∃ members, value = .obj members := by
  obtain ⟨rest, rfl⟩ := List.head?_eq_some_iff.mp hbrace
  unfold JsonText.spelled at h
  split at h
  · rename_i read hread
    obtain rfl := Option.some.inj h
    rw [readValue, if_pos rfl] at hread
    split_ifs at hread
    · exact ⟨[], (Option.some.inj (Prod.mk.inj (Option.some.inj hread)).1).symm⟩
    · obtain ⟨⟨members, rest⟩, -, hread⟩ := Option.map_eq_some_iff.mp hread
      have hvalue : members.value = some value := (Prod.mk.inj hread).1
      unfold Members.value at hvalue
      split_ifs at hvalue
      obtain ⟨fields, -, rfl⟩ := Option.map_eq_some_iff.mp hvalue
      exact ⟨fields, rfl⟩
  · cases h

/-- What is decoded from a span is one object within the limits. -/
lemma decodes_of_decodeSpan (h : decodeSpan host text = .ok objects)
    (hbrace : text.head? = some '\x7b') : ∃ obj, objects = [obj] ∧ Decodes host text obj := by
  unfold Protocols.decodeSpan loads at h
  cases hspelled : spelled host.float text with
  | none =>
    rw [hspelled] at h
    cases hrefused : host.refused text <;> simp [hrefused] at h
  | some found =>
    rw [hspelled] at h
    cases hlimit : host.overLimit text with
    | true => simp [hlimit] at h
    | false =>
      simp only [hlimit, Bool.false_eq_true, if_false] at h
      cases found with
      | none => simp [decodeJsonObject] at h
      | some value =>
        obtain ⟨members, rfl⟩ := obj_of_brace hspelled hbrace
        dsimp only at h
        cases hdecoded : decodeJsonObject defaultJsonLimits (.json (.obj members)) with
        | error e => simp [hdecoded] at h
        | ok obj =>
          rw [hdecoded] at h
          obtain rfl : obj = members := (decodeJsonObject_eq_ok.mp hdecoded).2
          exact ⟨obj, (Except.ok.inj h).symm, hspelled, hlimit, hdecoded⟩

lemma decodes_of_decodeSpans (h : decodeSpans host parts = .ok objects)
    (hbrace : ∀ part ∈ parts, part.head? = some '\x7b') :
    List.Forall₂ (Decodes host) parts objects := by
  induction parts generalizing objects with
  | nil =>
    obtain rfl := Except.ok.inj h
    exact .nil
  | cons part parts ih =>
    obtain ⟨first, hfirst, h⟩ := except_bind_eq_ok.mp h
    obtain ⟨rest, hrest, h⟩ := except_bind_eq_ok.mp h
    obtain ⟨obj, rfl, hobj⟩ := decodes_of_decodeSpan hfirst (hbrace part List.mem_cons_self)
    obtain rfl := Except.ok.inj h
    exact .cons hobj (ih hrest fun other hother => hbrace other (List.mem_cons_of_mem _ hother))

/-- A sequence with an object in it starts with no fence. -/
lemma not_fenced (h : Sequence parts source) (hbraced : ∀ part ∈ parts, Braced part)
    (hne : parts ≠ []) : "```".toList.isPrefixOf source = false := by
  have hfence : "```".toList = ['`', '`', '`'] := by decide
  cases h with
  | nil => exact absurd rfl hne
  | @cons lead part rest parts hlead hrest =>
    obtain ⟨inner, rfl, -⟩ := hbraced part List.mem_cons_self
    rw [hfence]
    cases lead with
    | nil => rfl
    | cons ch lead =>
      have hch : ('`' == ch) = false := by
        rw [beq_eq_false_iff_ne]
        rintro rfl
        exact absurd (hlead _ List.mem_cons_self) (by decide)
      simp [List.isPrefixOf, hch]

/-- A sequence of objects is read object by object. -/
lemma jsonObjects_of_sequence (h : Sequence parts text) (hne : parts ≠ [])
    (hparts : List.Forall₂ (Decodes host) parts objects) :
    jsonObjects host text = .ok (some objects) := by
  have hbraced := braced_of_decodes hparts
  have hsource := h.strip hbraced
  obtain ⟨hslices, hgaps⟩ := balancedJsonSpans_sequence hsource hbraced
  unfold jsonObjects
  simp only [not_fenced hsource hbraced hne, Bool.false_eq_true, if_false]
  cases hspans : balancedJsonSpans (strip text) with
  | nil =>
    rw [hspans, List.map_nil] at hslices
    exact absurd hslices.symm hne
  | cons first rest =>
    rw [hspans] at hslices hgaps
    obtain ⟨hfirst, hlast, hbetween⟩ := (forall_gaps_iff 0 first rest).mp hgaps
    replace hfirst := strip_eq_nil_iff.mpr hfirst
    replace hlast := strip_eq_nil_iff.mpr hlast
    have hzip : (((first :: rest).zip rest).any fun pair =>
        strip (slice (strip text) pair.1.2 pair.2.1) ≠ []) = false := by
      rw [List.any_eq_false]
      intro pair hpair
      simpa using strip_eq_nil_iff.mpr (hbetween pair hpair)
    simp only [hfirst, hlast, hzip, ne_eq, not_true_eq_false, or_self, if_false, hslices,
      Bool.false_eq_true, decodeSpans_of_decodes hparts]
    rfl

/-- What is read as objects is a sequence of them. -/
lemma sequence_of_jsonObjects (h : jsonObjects host text = .ok (some objects)) :
    ∃ parts, Sequence parts (strip text) ∧ List.Forall₂ (Decodes host) parts objects := by
  unfold jsonObjects at h
  dsimp only at h
  split_ifs at h with hfence
  · cases Except.ok.inj h
  split at h
  · cases Except.ok.inj h
  · rename_i first rest hspans
    split_ifs at h with hends hbetween
    · cases Except.ok.inj h
    · cases Except.ok.inj h
    obtain ⟨read, hread, h⟩ := except_last_eq_ok.mp h
    obtain rfl := Option.some.inj h
    refine ⟨(balancedJsonSpans (strip text)).map fun span => slice (strip text) span.1 span.2, ?_, ?_⟩
    · have hgaps : ∀ gap ∈ gaps (strip text) 0 (balancedJsonSpans (strip text)), Blank gap := by
        rw [hspans, forall_gaps_iff]
        obtain ⟨hfirst, hlast⟩ := not_or.mp hends
        refine ⟨strip_eq_nil_iff.mp (not_not.mp hfirst), strip_eq_nil_iff.mp (not_not.mp hlast), ?_⟩
        intro pair hpair
        by_contra hblank
        exact hbetween (List.any_eq_true.mpr ⟨pair, hpair, by
          simpa using fun h => hblank (strip_eq_nil_iff.mp h)⟩)
      exact sequence_of_gaps (balancedJsonSpans_ordered _) hgaps
    · rw [hspans]
      refine decodes_of_decodeSpans hread fun part hpart => ?_
      obtain ⟨span, hspan, rfl⟩ := List.mem_map.mp hpart
      exact slice_of_span (hspans ▸ hspan)

/-- An object is read as the request that it says. -/
lemma says_toolAndArgs (host : TextHost) (obj : Fields) : Says host obj (toolAndArgs host obj) := by
  refine ⟨?_, ?_⟩
  · unfold toolAndArgs
    cases htool : obj.get? "tool" with
    | none => exact ⟨"", .none htool, by simp [Fields.truthy, htool]⟩
    | some value =>
      cases htruthy : value.truthy with
      | false =>
        refine ⟨"", ?_, by simp [Fields.truthy, htool, htruthy]⟩
        cases hstr : value.str? with
        | none => exact .blank htool hstr htruthy
        | some name =>
          obtain rfl := Json.str?_eq_some.mp hstr
          obtain rfl : name = "" := by simpa [Json.truthy] using htruthy
          exact .text htool
      | true =>
        cases hstr : value.str? with
        | some name =>
          obtain rfl := Json.str?_eq_some.mp hstr
          exact ⟨name, .text htool, by simp [Fields.truthy, htool, htruthy]⟩
        | none =>
          refine ⟨host.str value, .printed htool hstr htruthy, ?_⟩
          cases value <;> simp_all [Fields.truthy]
  · unfold toolAndArgs
    dsimp only
    split
    · rename_i args hargs
      refine .args ?_
      cases hfound : obj.get? "args" with
      | none => simp [hfound] at hargs
      | some value => simpa [hfound] using hargs
    · rename_i hnull
      rw [Fields.pop_eq_filter]
      refine .rest ?_
      cases hfound : obj.get? "args" with
      | none => exact Or.inl rfl
      | some value => exact Or.inr (by simpa [hfound] using hnull)
    · rename_i hargs hnull
      cases hfound : obj.get? "args" with
      | none => simp [hfound] at hnull
      | some value =>
        refine .odd hfound (fun h => hnull ?_) fun args h => hargs args ?_
        · simpa [hfound] using h
        · simpa [hfound] using h

lemma says_map (host : TextHost) (objects : List Fields) :
    List.Forall₂ (Says host) objects (objects.map (toolAndArgs host)) := by
  induction objects with
  | nil => exact .nil
  | cons obj objects ih => exact .cons (says_toolAndArgs host obj) ih

lemma decodeOther_ne (host : TextHost) (source : List Char) (items : List TextRequest) :
    decodeOther host source ≠ .requests items := by
  unfold decodeOther
  split_ifs
  case pos => simp
  case pos => simp
  case pos => split <;> simp
  case neg => simp

end Protocols

open Protocols in
/-- A reply of objects within the limits, at most eight of them and one that names a tool, asks for
exactly what these say, and no other reply asks for tools. -/
theorem text_turn (host : TextHost) :
    (∀ (parts : List (List Char)) (objects : List Fields) (text : List Char),
      List.Forall₂ (Decodes host) parts objects → Asks objects → Sequence parts text →
      ∃ items, decodeTextTurn host text = .requests items ∧
        List.Forall₂ (Says host) objects items) ∧
    ∀ (text : List Char) (items : List TextRequest), decodeTextTurn host text = .requests items →
      ∃ parts objects, List.Forall₂ (Decodes host) parts objects ∧ Asks objects ∧
        Sequence parts (strip text) ∧ List.Forall₂ (Says host) objects items := by
  constructor
  · intro parts objects text hparts hasks hsequence
    obtain ⟨obj, hobj, htool⟩ := hasks.tool
    have hne : parts ≠ [] := by
      rintro rfl
      cases hparts
      cases hobj
    have hread := jsonObjects_of_sequence
      (hsequence.strip (braced_of_decodes hparts)) hne hparts
    have hall : (objects.all fun obj => !namesTool obj) = false :=
      List.all_eq_false.mpr ⟨obj, hobj, by simp [htool]⟩
    have hcount : ¬ maxTextRequests < objects.length := not_lt.mpr hasks.count
    refine ⟨objects.map (toolAndArgs host), ?_, says_map host objects⟩
    unfold decodeTextTurn
    simp only [hread]
    cases objects with
    | nil => cases hobj
    | cons first rest => simp only [hall, hcount, Bool.false_eq_true, if_false]
  · intro text items h
    unfold decodeTextTurn at h
    dsimp only at h
    split at h
    · cases h
    · exact absurd h (decodeOther_ne host _ items)
    · exact absurd h (decodeOther_ne host _ items)
    · rename_i objects hne hread
      split_ifs at h with hall hone hmany
      obtain ⟨parts, hsequence, hparts⟩ := sequence_of_jsonObjects hread
      rw [strip_strip] at hsequence
      obtain rfl := DecodedTextTurn.requests.inj h
      refine ⟨parts, objects, hparts, ⟨not_lt.mp hmany, ?_⟩, hsequence, says_map host objects⟩
      simpa using hall

namespace Protocols

/-! ### Samples -/

/-- A language that reads integers only. -/
def sampleHost : TextHost where
  float := fun _ => none
  overLimit := fun _ => false
  refused := fun _ => .limit
  str := fun _ => ""
  lower := fun text => text.map Char.toLower

/-- The last value of a name counts, so the lone half of a pair under `tool` does no harm. -/
def sampleRead : List Char :=
  ("\x7b\"tool\": \"\\ud800\", \"tool\": \"read\", " ++
    "\"args\": \x7b\"path\": \"\x7d\\u0061\"\x7d\x7d").toList

def doneText : List Char := "\x7b\"tool\":\"done\"\x7d".toList

lemma sample_decodes : List.Forall₂ (Decodes sampleHost) [sampleRead, doneText]
    [[("args", .obj [("path", .str "\x7da")]), ("tool", .str "read")], [("tool", .str "done")]] :=
  .cons ⟨by decide +kernel, rfl, by decide +kernel⟩
    (.cons ⟨by decide +kernel, rfl, by decide +kernel⟩ .nil)

lemma sample_sequence :
    Sequence [sampleRead, doneText] ([] ++ sampleRead ++ (['\n', ' '] ++ doneText ++ [])) :=
  .cons (by simp [Blank]) (.cons (by simp [Blank]; decide) (.nil (by simp [Blank])))

/-- Lists in lists. -/
def nest : Nat → Json
  | 0 => .arr []
  | n + 1 => .arr [nest n]

/-- A request that nests deeper than the decoder allows. -/
def sampleDeep : List Char :=
  "\x7b\"tool\":".toList ++ List.replicate 65 '[' ++ List.replicate 65 ']' ++ ['\x7d']

end Protocols

open Protocols in
/-- Two requests. -/
theorem text_turn_sample : ∃ items,
    decodeTextTurn sampleHost ([] ++ sampleRead ++ (['\n', ' '] ++ doneText ++ [])) =
      .requests items ∧
    List.Forall₂ (Says sampleHost) [[("args", .obj [("path", .str "\x7da")]), ("tool", .str "read")],
      [("tool", .str "done")]] items :=
  (text_turn sampleHost).1 _ _ _ sample_decodes ⟨by decide, _, List.mem_cons_self, by decide⟩
    sample_sequence

open Protocols in
example : decodeTextTurn sampleHost (sampleRead ++ ['\n', ' '] ++ doneText) =
    .requests [⟨"read", [("path", .str "\x7da")]⟩, ⟨"done", []⟩] := by
  decide +kernel

open Protocols in
/-- A valid object that names a tool and nests too deep is refused. -/
theorem text_turn_unmet :
    JsonText.spelled sampleHost.float sampleDeep = some (some (.obj [("tool", nest 64)])) ∧
    Asks [[("tool", nest 64)]] ∧ Sequence [sampleDeep] sampleDeep ∧
    decodeTextTurn sampleHost sampleDeep = .error limitError := by
  have hsequence : Sequence [sampleDeep] ([] ++ sampleDeep ++ []) :=
    .cons (by simp [Blank]) (.nil (by simp [Blank]))
  rw [List.nil_append, List.append_nil] at hsequence
  exact ⟨by decide +kernel, ⟨by decide, _, List.mem_cons_self, by decide⟩, hsequence,
    by decide +kernel⟩

end Codey
