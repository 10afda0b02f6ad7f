import Codey.Toolchain.JsonValue

/-!
# Text result spans

The marked outputs in the text of a prompt: where they stand, and the digests of what stands there.
-/

namespace Codey

namespace TextResults

open Toolchain

abbrev Text := List Char

/-- `text[start:end]` -/
def between (text : Text) (start stop : Nat) : Text := (text.take stop).drop start

/-- Half-open places in the text of a prompt. -/
structure TextResultSpan where
  start : Nat
  stop : Nat
  digest : String
  resultRef : String
  tool : String
  ok : Bool
  valid : start < stop ∧ digest ≠ "" ∧ resultRef ≠ "" ∧ tool ≠ ""
  deriving DecidableEq

namespace TextResultSpan

/-- The checks of the constructor. -/
def make (start stop : Int) (digest resultRef tool : String) (ok : Bool) :
    Except String TextResultSpan :=
  if h : 0 ≤ start ∧ start < stop then
    if hdigest : digest ≠ "" then
      if href : resultRef ≠ "" then
        if htool : tool ≠ "" then
          .ok ⟨start.toNat, stop.toNat, digest, resultRef, tool, ok, by omega, hdigest, href, htool⟩
        else .error "text result span tool must not be empty"
      else .error "text result span result_ref must not be empty"
    else .error "text result span digest must not be empty"
  else .error "invalid text result span coordinates"

def toPayload (s : TextResultSpan) : Fields :=
  [("digest", .str s.digest), ("end", .int s.stop), ("ok", .bool s.ok),
    ("result_ref", .str s.resultRef), ("start", .int s.start), ("tool", .str s.tool)]

end TextResultSpan

def spanKeys : List String := ["digest", "end", "ok", "result_ref", "start", "tool"]

/-- The fields of a span. -/
def parseSpan (row : Fields) : Except String TextResultSpan := do
  let start ← requireJsonInteger ((row.get? "start").getD .null) "start"
  let stop ← requireJsonInteger ((row.get? "end").getD .null) "end"
  let digest ← requireJsonString ((row.get? "digest").getD .null) "digest"
  let resultRef ← requireJsonString ((row.get? "result_ref").getD .null) "result_ref"
  let tool ← requireJsonString ((row.get? "tool").getD .null) "tool"
  let ok ← requireJsonBoolean ((row.get? "ok").getD .null) "ok"
  TextResultSpan.make start stop digest resultRef tool ok

section

-- The digest of a text.
variable (digest : Text → String) (text : Text)

/-- Whether a span stands behind the one before it, in the text, with the digest of its place. -/
def spanFits (previousEnd : Nat) (s : TextResultSpan) : Bool :=
  previousEnd ≤ s.start && s.stop ≤ text.length && s.digest == digest (between text s.start s.stop)

def decodeSpan (previousEnd : Nat) (value : Json) : Except String TextResultSpan :=
  match value with
  | .obj row =>
    if row.map Prod.fst ≠ spanKeys then .error "invalid text result span"
    else
      match parseSpan row with
      | .error message => .error s!"invalid text result span: {message}"
      | .ok s =>
        if spanFits digest text previousEnd s then .ok s
        else .error "text result span differs from its frozen output"
  | _ => .error "invalid text result span"

def decodeSpans (previousEnd : Nat) : List Json → Except String (List TextResultSpan)
  | [] => .ok []
  | value :: rest =>
    decodeSpan digest text previousEnd value >>= fun s =>
    decodeSpans s.stop rest >>= fun spans => .ok (s :: spans)

def decodeTextResultSpans (spans : Json) : Except String (List TextResultSpan) :=
  match spans with
  | .arr rows => decodeSpans digest text 0 rows
  | _ => .error "text result spans must be a list"

/-- Spans that stand one behind the other in the text, with the digests of their places. -/
def SpansFit : Nat → List TextResultSpan → Prop
  | _, [] => True
  | previousEnd, s :: spans =>
    spanFits digest text previousEnd s = true ∧ SpansFit s.stop spans

instance decidableSpansFit : (previousEnd : Nat) → (spans : List TextResultSpan) →
    Decidable (SpansFit digest text previousEnd spans)
  | _, [] => .isTrue trivial
  | _, s :: spans =>
    @instDecidableAnd _ _ inferInstance (decidableSpansFit s.stop spans)

end

def payloads (spans : List TextResultSpan) : Json := .arr (spans.map fun s => .obj s.toPayload)

variable {digest : Text → String} {text : Text}

lemma parseSpan_toPayload (s : TextResultSpan) : parseSpan s.toPayload = .ok s := by
  obtain ⟨hcoordinates, hdigest, href, htool⟩ := s.valid
  have hint : 0 ≤ (s.start : Int) ∧ (s.start : Int) < s.stop := by omega
  simp [parseSpan, TextResultSpan.toPayload, TextResultSpan.make, hint, hdigest, href, htool, bind,
    Except.bind]

lemma decodeSpan_toPayload (previousEnd : Nat) (s s' : TextResultSpan) :
    decodeSpan digest text previousEnd (.obj s.toPayload) = .ok s' ↔
      spanFits digest text previousEnd s = true ∧ s' = s := by
  have hkeys : s.toPayload.map Prod.fst = spanKeys := rfl
  rw [decodeSpan, if_neg (not_not.mpr hkeys), parseSpan_toPayload]
  by_cases hfits : spanFits digest text previousEnd s <;> simp [hfits, eq_comm]

/-- The rows of spans are decoded exactly when the spans fit the text, and then to these spans. -/
lemma decodeSpans_toPayload {previousEnd : Nat} {spans spans' : List TextResultSpan} :
    decodeSpans digest text previousEnd (spans.map fun s => .obj s.toPayload) = .ok spans' ↔
      SpansFit digest text previousEnd spans ∧ spans' = spans := by
  induction spans generalizing previousEnd spans' with
  | nil => simp [decodeSpans, SpansFit, eq_comm]
  | cons s spans ih =>
    simp only [List.map_cons, decodeSpans, except_bind_eq_ok, decodeSpan_toPayload, SpansFit, ih,
      Except.ok.injEq]
    constructor
    · rintro ⟨_, ⟨hfits, rfl⟩, _, ⟨hrest, rfl⟩, rfl⟩
      exact ⟨⟨hfits, hrest⟩, rfl⟩
    · rintro ⟨⟨hfits, hrest⟩, rfl⟩
      exact ⟨s, ⟨hfits, rfl⟩, spans, ⟨hrest, rfl⟩, rfl⟩

lemma decodeTextResultSpans_payloads {spans spans' : List TextResultSpan} :
    decodeTextResultSpans digest text (payloads spans) = .ok spans' ↔
      SpansFit digest text 0 spans ∧ spans' = spans :=
  decodeSpans_toPayload

end TextResults

end Codey
