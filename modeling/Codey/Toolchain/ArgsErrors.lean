import Codey.Toolchain.Renormalize

/-!
# What the normalizer raises, and the size of what it returns

Every check raises a repair error, except the one for context lines, which lets the error of `int`
pass. What is returned has a size that can be told from what was sent.
-/

namespace Codey

namespace Toolchain

variable {args : Fields} {key : String} {keys : List String} {α β : Type}

/-! ### Errors other than repair errors -/

/-- A plain `ValueError` is raised. -/
def RaisesValue (x : Except ArgsError α) : Prop := ∃ message, x = .error (.value message)

variable {f : α → Except ArgsError β} {x : Except ArgsError α}

lemma raises_bind_iff :
    RaisesValue (x >>= f) ↔ RaisesValue x ∨ ∃ a, x = .ok a ∧ RaisesValue (f a) := by
  simp only [RaisesValue, except_bind_eq_error]
  constructor
  · rintro ⟨message, hx | ⟨a, ha, hf⟩⟩
    · exact Or.inl ⟨message, hx⟩
    · exact Or.inr ⟨a, ha, message, hf⟩
  · rintro (⟨message, hx⟩ | ⟨a, ha, message, hf⟩)
    · exact ⟨message, Or.inl hx⟩
    · exact ⟨message, Or.inr ⟨a, ha, hf⟩⟩

lemma raises_bind (hx : ¬ RaisesValue x) :
    RaisesValue (x >>= f) ↔ ∃ a, x = .ok a ∧ RaisesValue (f a) := by
  rw [raises_bind_iff, or_iff_right hx]

@[simp] lemma not_raises_ok (a : α) : ¬ RaisesValue (.ok a : Except ArgsError α) := by
  rintro ⟨message, h⟩
  cases h

@[simp] lemma not_raises_reject (message : String) :
    ¬ RaisesValue (reject message : Except ArgsError α) := by
  rintro ⟨message, h⟩
  cases h

@[simp] lemma not_raises_rejectUnknownArgs {context : String} :
    ¬ RaisesValue (rejectUnknownArgs args keys context) := by
  rintro ⟨message, h⟩
  unfold rejectUnknownArgs require at h
  split at h <;> cases h

@[simp] lemma not_raises_normalizePath (value : Json) : ¬ RaisesValue (normalizePath value) := by
  cases value with
  | str raw =>
    simp only [normalizePath]
    split_ifs
    · simp
    · simp
    · simp
    · simp
    · split <;> simp
  | _ => exact not_raises_reject _

@[simp] lemma not_raises_resolvePathArg {defaultPath missingMsg : Option String} :
    ¬ RaisesValue (resolvePathArg args defaultPath missingMsg) := by
  unfold resolvePathArg
  split
  · split
    · simp [raises_bind]
    · simp
  · simp [raises_bind]
  · simp [conflict]

variable {name : String}

@[simp] lemma not_raises_requireTextArg {msg : Option String} {allowBlank : Bool} :
    ¬ RaisesValue (requireTextArg args keys name msg allowBlank) := by
  unfold requireTextArg
  split
  · simp
  · rename_i k val _
    by_cases hblank : (!allowBlank && (strip val.toList).isEmpty) = true
    · rw [if_pos hblank]
      simp
    · rw [if_neg hblank]
      simp
  · simp
  · simp [conflict]

lemma not_raises_optionalArg {check : Json → Except ArgsError β}
    (hcheck : ∀ v, ¬ RaisesValue (check v)) : ¬ RaisesValue (optionalArg args key check) := by
  unfold optionalArg
  split
  · simp
  · simp [raises_bind (hcheck _)]

variable {maximum : Option Int}

lemma not_raises_bounds {p q : Prop} [Decidable p] [Decidable q] {a b : String} {x : β} :
    ¬ RaisesValue (if p then reject a else if q then reject b else .ok x) := by
  split_ifs <;> simp

@[simp] lemma not_raises_boundedPositiveInt {value : Json} :
    ¬ RaisesValue (boundedPositiveInt value name maximum) := by
  unfold boundedPositiveInt boundedInt
  split
  · exact not_raises_bounds
  · split
    · simp
    · split
      · exact not_raises_reject _
      · exact not_raises_bounds
  · simp

/-- A text of more digits than the language reads. -/
def Overlong (value : Json) : Prop :=
  ∃ s digits, value = .str s ∧ asciiDigits s = some digits ∧ maxStrDigits < digits.length

lemma raises_boundedNonnegativeInt {value : Json} :
    RaisesValue (boundedNonnegativeInt value name maximum) ↔ Overlong value := by
  unfold boundedNonnegativeInt boundedInt Overlong
  cases value with
  | str s =>
    simp only [Json.str.injEq]
    cases hdigits : asciiDigits s with
    | none =>
      simp only [not_raises_reject, false_iff, not_exists, not_and]
      rintro s' digits rfl hsome
      rw [hdigits] at hsome
      cases hsome
    | some digits =>
      by_cases hlong : maxStrDigits < digits.length
      · simp only [readInt, hlong, if_true]
        exact ⟨fun _ => ⟨s, digits, rfl, hdigits, hlong⟩, fun _ => ⟨_, rfl⟩⟩
      · simp only [readInt, hlong, if_false, not_raises_bounds, false_iff, not_exists, not_and]
        rintro s' digits' rfl hsome
        rw [hdigits] at hsome
        rwa [← Option.some.inj hsome]
  | int n =>
    simp only [not_raises_bounds, false_iff]
    rintro ⟨s, digits, h, -⟩
    cases h
  | _ =>
    simp only [not_raises_reject, false_iff]
    rintro ⟨s, digits, h, -⟩
    cases h

/-- Everything before the context lines of a search is accepted. -/
structure SearchChecked (args : Fields) : Prop where
  known : (rejectUnknownArgs args searchArgs "grep").isOk = true
  query : (requireTextArg args searchQueryKeys "query" (some "grep requires a query")).isOk = true
  path : (resolvePathArg args (some ".") none).isOk = true
  literal : (optionalArg args "literal" (checkBool "literal")).isOk = true
  caseSensitive : (optionalArg args "case_sensitive" (checkBool "case_sensitive")).isOk = true
  included : (optionalArg args "include" checkInclude).isOk = true
  excluded : (optionalArg args "exclude" checkExclude).isOk = true

/-- An argument is a text of more digits than the language reads. -/
def OverlongAt (args : Fields) (key : String) : Prop := ∃ v, args.get? key = some v ∧ Overlong v

/-- A search comes to a number of context lines with too many digits. -/
def ReadsOverlong (args : Fields) : Prop :=
  SearchChecked args ∧ (OverlongAt args "before_context" ∨
    (optionalArg args "before_context" (boundedNonnegativeInt · "before_context")).isOk = true ∧
      OverlongAt args "after_context")

lemma isOk_iff : x.isOk = true ↔ ∃ a, x = .ok a := by
  cases x <;> simp [Except.isOk, Except.toBool]

lemma raises_context :
    RaisesValue (optionalArg args key (boundedNonnegativeInt · name)) ↔ OverlongAt args key := by
  unfold optionalArg OverlongAt
  cases args.get? key with
  | none => simp
  | some v => simp [raises_bind_iff, raises_boundedNonnegativeInt]

lemma not_raises_positive :
    ¬ RaisesValue (optionalArg args key (boundedPositiveInt · name maximum)) :=
  not_raises_optionalArg fun _ => not_raises_boundedPositiveInt

lemma not_raises_checkBool (v : Json) : ¬ RaisesValue (checkBool key v) := by
  unfold checkBool
  split <;> simp

lemma not_raises_checkInclude (v : Json) : ¬ RaisesValue (checkInclude v) := by
  unfold checkInclude
  split
  · split <;> simp
  · simp

lemma not_raises_checkExclude (v : Json) : ¬ RaisesValue (checkExclude v) := by
  unfold checkExclude
  split
  · split <;> simp
  · simp

/-- A search raises something else exactly when it reads such a number. -/
lemma raises_normalizeSearch : RaisesValue (normalizeSearch args) ↔ ReadsOverlong args := by
  have hliteral : ¬ RaisesValue (optionalArg args "literal" (checkBool "literal")) :=
    not_raises_optionalArg not_raises_checkBool
  have hcase : ¬ RaisesValue (optionalArg args "case_sensitive" (checkBool "case_sensitive")) :=
    not_raises_optionalArg not_raises_checkBool
  have hincluded : ¬ RaisesValue (optionalArg args "include" checkInclude) :=
    not_raises_optionalArg not_raises_checkInclude
  have hexcluded : ¬ RaisesValue (optionalArg args "exclude" checkExclude) :=
    not_raises_optionalArg not_raises_checkExclude
  simp only [normalizeSearch, raises_bind not_raises_rejectUnknownArgs,
    raises_bind not_raises_requireTextArg, raises_bind not_raises_resolvePathArg,
    raises_bind hliteral, raises_bind hcase, raises_bind hincluded, raises_bind hexcluded,
    Prod.exists]
  simp only [raises_bind_iff, raises_context, not_raises_positive, not_raises_ok, and_false,
    exists_false, or_false, exists_and_right]
  simp only [ReadsOverlong, isOk_iff]
  constructor
  · rintro ⟨hknown, ⟨query, aliased, hquery⟩, ⟨p, n, counts, hpath⟩, h1, h2, h3, h4, hcontext⟩
    exact ⟨⟨isOk_iff.mpr hknown, isOk_iff.mpr ⟨_, hquery⟩, isOk_iff.mpr ⟨_, hpath⟩,
      isOk_iff.mpr h1, isOk_iff.mpr h2, isOk_iff.mpr h3, isOk_iff.mpr h4⟩, hcontext⟩
  · rintro ⟨hchecked, hcontext⟩
    obtain ⟨⟨query, aliased⟩, hquery⟩ := isOk_iff.mp hchecked.query
    obtain ⟨⟨p, n, counts⟩, hpath⟩ := isOk_iff.mp hchecked.path
    exact ⟨isOk_iff.mp hchecked.known, ⟨_, _, hquery⟩, ⟨_, _, _, hpath⟩,
      isOk_iff.mp hchecked.literal, isOk_iff.mp hchecked.caseSensitive,
      isOk_iff.mp hchecked.included, isOk_iff.mp hchecked.excluded, hcontext⟩

lemma not_raises_normalizeReplacement (v : Json) : ¬ RaisesValue (normalizeReplacement v) := by
  unfold normalizeReplacement
  split
  · split <;> simp [raises_bind]
  · simp

lemma not_raises_mapM (hf : ∀ a, ¬ RaisesValue (f a)) :
    ∀ as : List α, ¬ RaisesValue (as.mapM f)
  | [] => not_raises_ok _
  | a :: as => by
    rw [List.mapM_cons, raises_bind (hf a)]
    rintro ⟨b, -, h⟩
    rw [raises_bind (not_raises_mapM hf as)] at h
    obtain ⟨bs, -, h⟩ := h
    exact not_raises_ok _ h

lemma not_raises_normalizeMode {limits : ToolArgLimits} :
    ¬ RaisesValue (normalizeMode args limits) := by
  unfold normalizeMode
  split
  · simp
  split
  · unfold normalizeContent
    split
    · split <;> simp [raises_bind]
    · simp
  · unfold normalizeReplacements
    split
    · simp
    split
    · split
      · simp
      · rw [raises_bind (not_raises_mapM not_raises_normalizeReplacement _)]
        simp
    · simp

/-- No other tool raises anything but a repair error. -/
lemma raises_normalizeTool (args : Fields) (tool : String) (limits : ToolArgLimits) :
    RaisesValue (normalizeTool tool args limits) ↔ tool = "search" ∧ ReadsOverlong args := by
  have htext : ∀ keys name msg kind context,
      ¬ RaisesValue (normalizeText args keys name msg kind context) := by
    intro keys name msg kind context
    simp [normalizeText, raises_bind]
  unfold normalizeTool
  split_ifs with hedit hread hls hsearch hreferences hrun
  · simp [hedit, normalizeEdit, raises_bind, raises_bind not_raises_normalizeMode]
  · simp [hread, normalizeRead, raises_bind, raises_bind not_raises_positive]
  · simp [hls, normalizeLs, raises_bind]
  · rw [raises_normalizeSearch]
    simp [hsearch]
  · simp [hsearch, normalizeReferences, htext]
  · simp [hsearch, normalizeRunShell, htext]
  · simp only [hsearch, false_and, iff_false]
    rintro ⟨message, h⟩
    cases h

/-! ### Sizes -/

def presentNodes (args : Fields) (key : String) : Nat := if (args.get? key).isSome then 1 else 0

def keptNodes (args : Fields) (key : String) : Nat :=
  match args.get? key with
  | some v => v.nodes
  | none => 0

def keptBytes (args : Fields) (key : String) : Nat :=
  match args.get? key with
  | some v => v.bytes + key.utf8ByteSize
  | none => 0

def numberBytes (args : Fields) (key : String) : Nat :=
  if (args.get? key).isSome then key.utf8ByteSize else 0

def textBytes (args : Fields) (keys : List String) : Nat :=
  match args.restrict keys with
  | (_, v) :: _ => v.bytes
  | [] => 0

/-- The bytes of the names that are left of the path. -/
def pathBytes (args : Fields) : Nat :=
  match sentPath args with
  | none => 1
  | some raw =>
    match walk [] (rawMoves raw) with
    | some st => (String.ofList (joinSegments st)).utf8ByteSize
    | none => 0

def replacementBytes : Json → Nat
  | .obj item => 20 + textBytes item editOldKeys + textBytes item editNewKeys
  | _ => 0

/-- The number of values in the arguments, with the path filled in. -/
def canonicalNodes (tool : String) (args : Fields) : Nat :=
  2 + if tool = "edit" then
    match args.get? "replacements" with
    | some (.arr items) => 1 + 3 * items.length
    | _ => presentNodes args "content" + presentNodes args "base_result_ref"
  else if tool = "read" then presentNodes args "offset" + presentNodes args "limit"
  else if tool = "ls" then 0
  else if tool = "search" then
    1 + keptNodes args "literal" + keptNodes args "case_sensitive" + keptNodes args "include" +
      keptNodes args "exclude" + presentNodes args "before_context" +
      presentNodes args "after_context" + presentNodes args "offset" + presentNodes args "limit"
  else 1

/-- The bytes of text in the arguments, under the first of their names, with the path folded and
numbers read. -/
def canonicalBytes (tool : String) (args : Fields) : Nat :=
  4 + pathBytes args + if tool = "edit" then
    match args.get? "replacements" with
    | some (.arr items) => 12 + (items.map replacementBytes).sum
    | _ => keptBytes args "content" + keptBytes args "base_result_ref"
  else if tool = "read" then numberBytes args "offset" + numberBytes args "limit"
  else if tool = "ls" then 0
  else if tool = "search" then
    5 + textBytes args searchQueryKeys + keptBytes args "literal" +
      keptBytes args "case_sensitive" + keptBytes args "include" + keptBytes args "exclude" +
      numberBytes args "before_context" + numberBytes args "after_context" +
      numberBytes args "offset" + numberBytes args "limit"
  else if tool = "references" then 6 + textBytes args referencesSymbolKeys
  else 7 + textBytes args commandKeys

/-- The arguments in their canonical form have a given size, and no deep values. -/
structure HasSize (members : Fields) (nodes bytes : Nat) : Prop where
  nodes : 1 + Json.nodesMembers members = nodes
  bytes : Json.bytesMembers members = bytes
  height : Json.heightMembers members ≤ 3

lemma HasSize.fits_iff {members : Fields} {n b : Nat} (h : HasSize members n b) :
    Fits defaultJsonLimits members ↔
      n ≤ defaultJsonLimits.maxNodes ∧ b ≤ defaultJsonLimits.maxStringBytes := by
  rw [Fits, h.nodes, h.bytes]
  exact and_iff_right (h.height.trans (by decide))

lemma nodesMembers_append (a b : Fields) :
    Json.nodesMembers (a ++ b) = Json.nodesMembers a + Json.nodesMembers b := by
  induction a with
  | nil => simp [Json.nodesMembers]
  | cons m a ih =>
    obtain ⟨k, v⟩ := m
    simp only [List.cons_append, Json.nodesMembers, ih]
    omega

lemma bytesMembers_append (a b : Fields) :
    Json.bytesMembers (a ++ b) = Json.bytesMembers a + Json.bytesMembers b := by
  induction a with
  | nil => simp [Json.bytesMembers]
  | cons m a ih =>
    obtain ⟨k, v⟩ := m
    simp only [List.cons_append, Json.bytesMembers, ih]
    omega

lemma heightMembers_append (a b : Fields) :
    Json.heightMembers (a ++ b) = max (Json.heightMembers a) (Json.heightMembers b) := by
  induction a with
  | nil => simp [Json.heightMembers]
  | cons m a ih =>
    obtain ⟨k, v⟩ := m
    simp only [List.cons_append, Json.heightMembers, ih]
    omega

/-- The size of an argument that is kept. -/
lemma kept_size {check : Json → Except ArgsError Json} {o : Option Json}
    (hcheck : ∀ v w, check v = .ok w → w = v) (hheight : ∀ v w, check v = .ok w → v.height ≤ 1)
    (h : optionalArg args key check = .ok o) :
    Json.nodesMembers (member key o) = keptNodes args key ∧
      Json.bytesMembers (member key o) = keptBytes args key ∧
      Json.heightMembers (member key o) ≤ 3 := by
  have hkept := optionalArg_kept hcheck h
  unfold keptNodes keptBytes
  rw [hkept]
  unfold optionalArg at h
  cases hget : args.get? key with
  | none => simp [member, Json.nodesMembers, Json.bytesMembers, Json.heightMembers]
  | some v =>
    rw [hget] at h
    obtain ⟨w, hw, -⟩ := except_bind_eq_ok.mp h
    have := hheight v w hw
    simp only [member, Json.nodesMembers, Json.bytesMembers, Json.heightMembers, Nat.add_zero,
      true_and]
    omega

lemma checkBool_height : ∀ v w, checkBool key v = .ok w → v.height ≤ 1 := by
  intro v w h
  unfold checkBool at h
  split at h
  · simp [Json.height]
  · simp [reject] at h

lemma checkInclude_height : ∀ v w, checkInclude v = .ok w → v.height ≤ 1 := by
  intro v w h
  unfold checkInclude at h
  split at h
  · simp [Json.height]
  · simp [reject] at h

lemma heightItems_texts {items : List Json} (h : ∀ item ∈ items, item.str?.isSome) :
    Json.heightItems items ≤ 1 := by
  induction items with
  | nil => simp [Json.heightItems]
  | cons item items ih =>
    have ih := ih fun x hx => h x (by simp [hx])
    have hitem : item.height = 0 := by
      obtain ⟨s, hs⟩ := Option.isSome_iff_exists.mp (h item (by simp))
      rw [Json.str?_eq_some.mp hs, Json.height]
    simp only [Json.heightItems, hitem]
    omega

lemma checkExclude_height : ∀ v w, checkExclude v = .ok w → v.height ≤ 1 := by
  intro v w h
  unfold checkExclude at h
  split at h
  · split_ifs at h with hall
    · refine heightItems_texts fun item hitem => ?_
      obtain ⟨s, hs, -⟩ := Option.any_eq_true _ _ |>.mp (List.all_eq_true.mp hall item hitem)
      rw [hs]
      rfl
    · simp [reject] at h
  · simp [reject] at h

/-- The size of an argument that becomes a number. -/
lemma number_size {check : Json → Except ArgsError (Int × Bool)} {o : Option (Int × Bool)}
    (h : optionalArg args key check = .ok o) :
    Json.nodesMembers (numberMember key o) = presentNodes args key ∧
      Json.bytesMembers (numberMember key o) = numberBytes args key ∧
      Json.heightMembers (numberMember key o) ≤ 3 := by
  unfold presentNodes numberBytes
  unfold optionalArg at h
  cases hget : args.get? key with
  | none =>
    rw [hget] at h
    obtain rfl := Except.ok.inj h
    simp [numberMember, member, Json.nodesMembers, Json.bytesMembers, Json.heightMembers]
  | some v =>
    rw [hget] at h
    obtain ⟨n, -, rfl⟩ := except_last_eq_ok.mp h
    simp [numberMember, member, Json.nodesMembers, Json.bytesMembers, Json.heightMembers,
      Json.nodes, Json.bytes, Json.height]

lemma text_size {msg : Option String} {allowBlank : Bool} {s : String} {aliased : Option String}
    (h : requireTextArg args keys name msg allowBlank = .ok (s, aliased)) :
    s.utf8ByteSize = textBytes args keys := by
  obtain ⟨⟨k, hrestrict⟩, -⟩ := requireTextArg_eq_ok h
  rw [textBytes, hrestrict]
  rfl

lemma path_size {defaultPath missingMsg : Option String} {p : String} {repairs : Nat × Counts}
    (hdefault : RootDefault defaultPath)
    (h : resolvePathArg args defaultPath missingMsg = .ok (p, repairs)) :
    p.utf8ByteSize = pathBytes args := by
  unfold resolvePathArg at h
  unfold pathBytes sentPath
  split at h
  · rename_i hnone
    rw [hnone]
    rcases hdefault with rfl | rfl
    · simp [reject] at h
    · have hroot : normalizePath (.str ".") = .ok (".", false) := rfl
      simp only [hroot, bind, Except.bind, Except.ok.injEq, Prod.mk.injEq] at h
      obtain ⟨rfl, -⟩ := h
      rfl
  · rename_i key rawPath hone
    obtain ⟨⟨q, changed⟩, hq, hval⟩ := except_last_eq_ok.mp h
    obtain ⟨rfl, -⟩ := Prod.mk.inj hval
    cases rawPath with
    | str raw =>
      obtain ⟨-, st, hst, rfl, -⟩ := normalizePath_str_eq_ok.mp hq
      simp only [hone, hst]
    | _ => simp [normalizePath, reject] at hq
  · simp [conflict, reject] at h

end Toolchain

end Codey
