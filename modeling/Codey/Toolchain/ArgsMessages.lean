import Codey.Toolchain.ToolArgsRepair

/-!
# The texts of refused arguments

A caller takes an empty text for success, so every refusal has to say something.
-/

namespace Codey

namespace Toolchain

variable {α β : Type} {args : Fields} {key name : String} {keys : List String}

/-! ### The decoder -/

variable {limits : JsonLimits}

lemma Decoder.string_error {d : Decoder} {text message : String}
    (h : d.string limits text = .error message) : message ≠ "" := by
  unfold Decoder.string at h
  split_ifs at h
  exact Except.error.inj h ▸ by decide

lemma Decoder.enter_error {d : Decoder} {depth : Nat} {message : String}
    (h : d.enter limits depth = .error message) : message ≠ "" := by
  unfold Decoder.enter at h
  split_ifs at h
  exact Except.error.inj h ▸ by decide

mutual
lemma Decoder.value_error {message : String} : ∀ (x : Json) (d : Decoder) (depth : Nat),
    d.value limits depth x = .error message → message ≠ ""
  | .null, _, _, h | .bool _, _, _, h | .int _, _, _, h | .float _, _, _, h => enter_error h
  | .str _, _, _, h => by
    rcases except_bind_eq_error.mp h with h | ⟨_, -, h⟩
    · exact enter_error h
    · exact string_error h
  | .arr items, _, depth, h => by
    rcases except_bind_eq_error.mp h with h | ⟨d, -, h⟩
    · exact enter_error h
    · exact values_error items d (depth + 1) h
  | .obj members, _, depth, h => by
    rcases except_bind_eq_error.mp h with h | ⟨d, -, h⟩
    · exact enter_error h
    · exact fields_error members d (depth + 1) h

lemma Decoder.values_error {message : String} : ∀ (xs : List Json) (d : Decoder) (depth : Nat),
    d.values limits depth xs = .error message → message ≠ ""
  | [], _, _, h => nomatch h
  | x :: xs, d, depth, h => by
    rcases except_bind_eq_error.mp h with h | ⟨d, -, h⟩
    · exact value_error x _ depth h
    · exact values_error xs d depth h

lemma Decoder.fields_error {message : String} :
    ∀ (members : List (String × Json)) (d : Decoder) (depth : Nat),
      d.fields limits depth members = .error message → message ≠ ""
  | [], _, _, h => nomatch h
  | (_, x) :: rest, d, depth, h => by
    rcases except_bind_eq_error.mp h with h | ⟨d, -, h⟩
    · exact value_error x _ depth h
    · rcases except_bind_eq_error.mp h with h | ⟨d, -, h⟩
      · exact string_error h
      · exact fields_error rest d depth h
end

lemma decodeJsonObject_error {value : Json} {message : String}
    (h : decodeJsonObject limits (.json value) = .error message) : message ≠ "" := by
  simp only [decodeJsonObject] at h
  split at h
  · rename_i found hfound
    exact Except.error.inj h ▸ Decoder.value_error value _ _ hfound
  · split at h
    · cases h
    · exact Except.error.inj h ▸ by decide

/-! ### The normalizer -/

/-- A repair error has a text. -/
def Worded (x : Except ArgsError α) : Prop :=
  ∀ message kind, x = .error (.repair message kind) → message ≠ ""

variable {x : Except ArgsError α} {f : α → Except ArgsError β}

@[simp] lemma worded_ok (a : α) : Worded (.ok a : Except ArgsError α) := fun _ _ h => nomatch h

lemma worded_bind (hx : Worded x) (hf : ∀ a, Worded (f a)) : Worded (x >>= f) := by
  intro message kind h
  rcases except_bind_eq_error.mp h with h | ⟨a, -, h⟩
  · exact hx message kind h
  · exact hf a message kind h

@[simp] lemma worded_reject {message : String} :
    Worded (reject message : Except ArgsError α) ↔ message ≠ "" := by
  constructor
  · exact fun h => h message _ rfl
  · rintro hne found kind ⟨⟩
    exact hne

@[simp] lemma worded_value (message : String) :
    Worded (.error (.value message) : Except ArgsError α) := fun _ _ h => nomatch h

lemma worded_rejectUnknownArgs (context : String) : Worded (rejectUnknownArgs args keys context) := by
  unfold rejectUnknownArgs require
  split
  · simp
  · rintro found kind ⟨⟩
    simp [String.append_eq_empty_iff]

lemma worded_conflict (present : Fields) :
    Worded (conflict name present : Except ArgsError α) := by
  simp [conflict, String.append_eq_empty_iff, toString]

lemma worded_normalizePath (value : Json) : Worded (normalizePath value) := by
  cases value with
  | str raw =>
    simp only [normalizePath]
    split_ifs
    · simp
    · simp [String.append_eq_empty_iff]
    · simp [String.append_eq_empty_iff]
    · simp [String.append_eq_empty_iff]
    · split <;> simp [String.append_eq_empty_iff]
  | _ => exact worded_reject.mpr (by decide)

lemma worded_resolvePathArg {defaultPath missingMsg : Option String}
    (h : missingMsg.getD "path cannot be empty" ≠ "") :
    Worded (resolvePathArg args defaultPath missingMsg) := by
  unfold resolvePathArg
  split
  · split
    · exact worded_bind (worded_normalizePath _) fun _ => worded_ok _
    · exact worded_reject.mpr h
  · exact worded_bind (worded_normalizePath _) fun _ => worded_ok _
  · exact worded_conflict _

lemma worded_requireTextArg {missingMsg : Option String} {allowBlank : Bool}
    (h : missingMsg ≠ some "") : Worded (requireTextArg args keys name missingMsg allowBlank) := by
  unfold requireTextArg
  split
  · cases missingMsg with
    | none => simp [String.append_eq_empty_iff]
    | some message => simpa using h
  · split <;> simp [String.append_eq_empty_iff]
  · simp [String.append_eq_empty_iff]
  · exact worded_conflict _

lemma worded_optionalArg {check : Json → Except ArgsError β} (h : ∀ value, Worded (check value)) :
    Worded (optionalArg args key check) := by
  unfold optionalArg
  split
  · exact worded_ok _
  · exact worded_bind (h _) fun _ => worded_ok _

lemma worded_boundedInt {low : Int} {invalid : String} {overlong : List Char → ArgsError}
    {maximum : Option Int} (hinvalid : invalid ≠ "")
    (hoverlong : ∀ digits, Worded (.error (overlong digits) : Except ArgsError (Int × Bool)))
    (value : Json) : Worded (boundedInt low invalid overlong value name maximum) := by
  have hbounded : ∀ (parsed : Int) (coerced : Bool), Worded
      (if parsed < low then reject (name ++ invalid)
        else if maximum.any (· < parsed) then reject (s!"{name} must be at most {maximum.getD 0}")
        else .ok (parsed, coerced) : Except ArgsError (Int × Bool)) := by
    intro parsed coerced
    split_ifs <;> simp [String.append_eq_empty_iff, hinvalid, toString]
  cases value with
  | int parsed => exact hbounded parsed false
  | str text =>
    simp only [boundedInt]
    split
    · simp [String.append_eq_empty_iff, hinvalid]
    · split
      · exact hoverlong _
      · exact hbounded _ true
  | _ => simp [boundedInt, String.append_eq_empty_iff, hinvalid]

lemma worded_boundedPositiveInt {maximum : Option Int} (value : Json) :
    Worded (boundedPositiveInt value name maximum) := by
  refine worded_boundedInt (by decide) (fun digits => ?_) value
  rintro message kind ⟨⟩
  simp [String.append_eq_empty_iff]

lemma worded_boundedNonnegativeInt {maximum : Option Int} (value : Json) :
    Worded (boundedNonnegativeInt value name maximum) :=
  worded_boundedInt (by decide) (fun _ => worded_value _) value

lemma worded_normalizeReplacement (value : Json) : Worded (normalizeReplacement value) := by
  cases value with
  | obj item =>
    simp only [normalizeReplacement]
    split
    · simp
    · refine worded_bind (worded_rejectUnknownArgs _) fun _ => ?_
      refine worded_bind (worded_requireTextArg (by simp)) fun _ => ?_
      exact worded_bind (worded_requireTextArg (by simp)) fun _ => worded_ok _
  | _ => exact worded_reject.mpr (by decide)

lemma worded_mapM {items : List α} (h : ∀ a, Worded (f a)) : Worded (items.mapM f) := by
  induction items with
  | nil => exact worded_ok []
  | cons item items ih =>
    rw [List.mapM_cons]
    exact worded_bind (h item) fun _ => worded_bind ih fun _ => worded_ok _

lemma worded_normalizeMode (limits : ToolArgLimits) : Worded (normalizeMode args limits) := by
  unfold normalizeMode
  split
  · simp
  · split
    · unfold normalizeContent
      split
      · split
        · exact worded_bind (worded_requireTextArg (by simp)) fun _ => worded_ok _
        · exact worded_ok _
      · simp
    · unfold normalizeReplacements
      split
      · simp
      · split
        · split
          · simp [String.append_eq_empty_iff, toString]
          · exact worded_bind (worded_mapM worded_normalizeReplacement) fun _ => worded_ok _
        · simp

lemma worded_normalizeText {missingMsg kind context : String} (h : missingMsg ≠ "") :
    Worded (normalizeText args keys name missingMsg kind context) := by
  refine worded_bind (worded_rejectUnknownArgs _) fun _ => ?_
  refine worded_bind (worded_requireTextArg (by simpa using h)) fun _ => ?_
  exact worded_bind (worded_resolvePathArg (by decide)) fun _ => worded_ok _

lemma worded_checkBool (value : Json) : Worded (checkBool key value) := by
  cases value <;> simp [checkBool, String.append_eq_empty_iff]

lemma worded_checkInclude (value : Json) : Worded (checkInclude value) := by
  unfold checkInclude
  split
  · split <;> simp
  · simp

lemma worded_checkExclude (value : Json) : Worded (checkExclude value) := by
  unfold checkExclude
  split
  · split <;> simp
  · simp

lemma worded_normalizeSearch : Worded (normalizeSearch args) := by
  refine worded_bind (worded_rejectUnknownArgs _) fun _ => ?_
  refine worded_bind (worded_requireTextArg (by decide)) fun _ => ?_
  refine worded_bind (worded_resolvePathArg (by decide)) fun _ => ?_
  refine worded_bind (worded_optionalArg worded_checkBool) fun _ => ?_
  refine worded_bind (worded_optionalArg worded_checkBool) fun _ => ?_
  refine worded_bind (worded_optionalArg worded_checkInclude) fun _ => ?_
  refine worded_bind (worded_optionalArg worded_checkExclude) fun _ => ?_
  refine worded_bind (worded_optionalArg worded_boundedNonnegativeInt) fun _ => ?_
  refine worded_bind (worded_optionalArg worded_boundedNonnegativeInt) fun _ => ?_
  refine worded_bind (worded_optionalArg worded_boundedPositiveInt) fun _ => ?_
  exact worded_bind (worded_optionalArg worded_boundedPositiveInt) fun _ => worded_ok _

lemma worded_normalizeRead (limits : ToolArgLimits) : Worded (normalizeRead args limits) := by
  refine worded_bind (worded_rejectUnknownArgs _) fun _ => ?_
  refine worded_bind (worded_resolvePathArg (by decide)) fun _ => ?_
  refine worded_bind (worded_optionalArg worded_boundedPositiveInt) fun _ => ?_
  exact worded_bind (worded_optionalArg worded_boundedPositiveInt) fun _ => worded_ok _

lemma worded_normalizeTool (tool : String) (limits : ToolArgLimits) :
    Worded (normalizeTool tool args limits) := by
  unfold normalizeTool
  split_ifs
  · refine worded_bind (worded_rejectUnknownArgs _) fun _ => ?_
    refine worded_bind (worded_resolvePathArg (by decide)) fun _ => ?_
    exact worded_bind (worded_normalizeMode limits) fun _ => worded_ok _
  · exact worded_normalizeRead limits
  · refine worded_bind (worded_rejectUnknownArgs _) fun _ => ?_
    exact worded_bind (worded_resolvePathArg (by decide)) fun _ => worded_ok _
  · exact worded_normalizeSearch
  · exact worded_normalizeText (by decide)
  · exact worded_normalizeText (by simp [String.append_eq_empty_iff, toString])
  · rintro message kind ⟨⟩
    simp [String.append_eq_empty_iff, toString]

lemma worded_normalizeToolArgs (lower : String → String) (toolName : String) (value : Json)
    (limits : ToolArgLimits) : Worded (normalizeToolArgs lower toolName (.json value) limits) := by
  unfold normalizeToolArgs
  split
  · rename_i message h
    exact worded_reject.mpr (decodeJsonObject_error h)
  · exact worded_normalizeTool _ limits

end Toolchain

end Codey
