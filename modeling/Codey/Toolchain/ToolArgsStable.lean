import Codey.Toolchain.ArgsErrors

/-!
# Confined and stable arguments

When the normalizer does what it promises: it raises nothing but repair errors, and returns
arguments with a confined path that it returns unchanged when it is run on them again.
-/

namespace Codey

namespace Toolchain

variable {args : Fields} {limits : ToolArgLimits} {result : ToolArgsRepairResult}

/-! ### The size of what each tool returns -/

lemma path_bytes : "path".utf8ByteSize = 4 := rfl

lemma normalizeLs_size (h : normalizeLs args = .ok result) :
    HasSize result.args (canonicalNodes "ls" args) (canonicalBytes "ls" args) := by
  obtain ⟨⟨⟩, -, h⟩ := except_bind_eq_ok.mp h
  obtain ⟨⟨p, n, counts⟩, hpath, rfl⟩ := except_last_eq_ok.mp h
  have hp := path_size (Or.inr rfl) hpath
  constructor
  · simp [Json.nodesMembers, Json.nodes, canonicalNodes]
  · simp [Json.bytesMembers, Json.bytes, canonicalBytes, hp, path_bytes, Nat.add_comm]
  · simp [Json.heightMembers, Json.height]

lemma normalizeRead_size (h : normalizeRead args limits = .ok result) :
    HasSize result.args (canonicalNodes "read" args) (canonicalBytes "read" args) := by
  obtain ⟨⟨⟩, -, h⟩ := except_bind_eq_ok.mp h
  obtain ⟨⟨p, repairs⟩, hpath, h⟩ := except_bind_eq_ok.mp h
  obtain ⟨offset, hoffset, h⟩ := except_bind_eq_ok.mp h
  obtain ⟨limit, hlimit, rfl⟩ := except_last_eq_ok.mp h
  have hp := path_size (Or.inl rfl) hpath
  obtain ⟨hnodes, hbytes, hheight⟩ := number_size hoffset
  obtain ⟨hnodes', hbytes', hheight'⟩ := number_size hlimit
  constructor
  · simp [Json.nodesMembers, Json.nodes, nodesMembers_append, hnodes, hnodes', canonicalNodes]
    omega
  · simp [Json.bytesMembers, Json.bytes, bytesMembers_append, hbytes, hbytes', hp, canonicalBytes,
      path_bytes]
    omega
  · simp only [Json.heightMembers, Json.height, heightMembers_append]
    omega

lemma normalizeText_size {keys : List String} {name msg kind context : String}
    (h : normalizeText args keys name msg kind context = .ok result) :
    HasSize result.args 3
      (4 + pathBytes args + (name.utf8ByteSize + textBytes args keys)) := by
  obtain ⟨⟨⟩, -, h⟩ := except_bind_eq_ok.mp h
  obtain ⟨⟨text, aliased⟩, htext, h⟩ := except_bind_eq_ok.mp h
  obtain ⟨⟨p, repairs⟩, hpath, rfl⟩ := except_last_eq_ok.mp h
  have hp := path_size (Or.inr rfl) hpath
  have ht := text_size htext
  constructor
  · simp [Json.nodesMembers, Json.nodes]
  · simp only [Json.bytesMembers, Json.bytes, hp, ht, path_bytes]
    omega
  · simp [Json.heightMembers, Json.height]

lemma normalizeSearch_size (h : normalizeSearch args = .ok result) :
    HasSize result.args (canonicalNodes "search" args) (canonicalBytes "search" args) := by
  obtain ⟨⟨⟩, -, h⟩ := except_bind_eq_ok.mp h
  obtain ⟨⟨query, aliased⟩, hquery, h⟩ := except_bind_eq_ok.mp h
  obtain ⟨⟨p, repairs⟩, hpath, h⟩ := except_bind_eq_ok.mp h
  obtain ⟨literal, hliteral, h⟩ := except_bind_eq_ok.mp h
  obtain ⟨caseSensitive, hcase, h⟩ := except_bind_eq_ok.mp h
  obtain ⟨included, hincluded, h⟩ := except_bind_eq_ok.mp h
  obtain ⟨excluded, hexcluded, h⟩ := except_bind_eq_ok.mp h
  obtain ⟨before, hbefore, h⟩ := except_bind_eq_ok.mp h
  obtain ⟨after, hafter, h⟩ := except_bind_eq_ok.mp h
  obtain ⟨offset, hoffset, h⟩ := except_bind_eq_ok.mp h
  obtain ⟨limit, hlimit, rfl⟩ := except_last_eq_ok.mp h
  have hp := path_size (Or.inr rfl) hpath
  have hq := text_size hquery
  obtain ⟨n₁, b₁, d₁⟩ := kept_size (fun _ _ => checkBool_eq_ok) checkBool_height hliteral
  obtain ⟨n₂, b₂, d₂⟩ := kept_size (fun _ _ => checkBool_eq_ok) checkBool_height hcase
  obtain ⟨n₃, b₃, d₃⟩ := kept_size (fun _ _ => checkInclude_eq_ok) checkInclude_height hincluded
  obtain ⟨n₄, b₄, d₄⟩ := kept_size (fun _ _ => checkExclude_eq_ok) checkExclude_height hexcluded
  obtain ⟨n₅, b₅, d₅⟩ := number_size hbefore
  obtain ⟨n₆, b₆, d₆⟩ := number_size hafter
  obtain ⟨n₇, b₇, d₇⟩ := number_size hoffset
  obtain ⟨n₈, b₈, d₈⟩ := number_size hlimit
  have hquerybytes : "query".utf8ByteSize = 5 := rfl
  constructor
  · simp [Json.nodesMembers, Json.nodes, nodesMembers_append, n₁, n₂, n₃, n₄, n₅, n₆, n₇, n₈,
      canonicalNodes]
    omega
  · simp [Json.bytesMembers, Json.bytes, bytesMembers_append, b₁, b₂, b₃, b₄, b₅, b₆, b₇, b₈, hp,
      hq, canonicalBytes, path_bytes, hquerybytes]
    omega
  · simp only [Json.heightMembers, Json.height, heightMembers_append]
    omega

lemma normalizeReplacement_size {v w : Json} (h : normalizeReplacement v = .ok w) :
    w.nodes = 3 ∧ w.bytes = replacementBytes v ∧ w.height = 1 := by
  unfold normalizeReplacement at h
  split at h
  · split_ifs at h
    · simp [reject] at h
    · obtain ⟨⟨⟩, -, h⟩ := except_bind_eq_ok.mp h
      obtain ⟨⟨old, _⟩, hold, h⟩ := except_bind_eq_ok.mp h
      obtain ⟨⟨new, _⟩, hnew, rfl⟩ := except_last_eq_ok.mp h
      have holdbytes : "old_string".utf8ByteSize = 10 := rfl
      have hnewbytes : "new_string".utf8ByteSize = 10 := rfl
      refine ⟨by simp [Json.nodes, Json.nodesMembers], ?_, by simp [Json.height, Json.heightMembers]⟩
      simp only [Json.bytes, Json.bytesMembers, replacementBytes, text_size hold, text_size hnew,
        holdbytes, hnewbytes]
      omega
  · simp [reject] at h

lemma replacements_size : ∀ {vs ws : List Json}, vs.mapM normalizeReplacement = .ok ws →
    Json.nodesItems ws = 3 * vs.length ∧ Json.bytesItems ws = (vs.map replacementBytes).sum ∧
      Json.heightItems ws ≤ 2
  | [], ws, h => by
    obtain rfl : [] = ws := by simpa [pure, Except.pure] using h
    simp [Json.nodesItems, Json.bytesItems, Json.heightItems]
  | v :: vs, ws, h => by
    rw [List.mapM_cons] at h
    obtain ⟨w, hw, h⟩ := except_bind_eq_ok.mp h
    obtain ⟨rest, hrest, rfl⟩ := except_last_eq_ok.mp h
    obtain ⟨hnodes, hbytes, hheight⟩ := normalizeReplacement_size hw
    obtain ⟨hnodes', hbytes', hheight'⟩ := replacements_size hrest
    simp only [Json.nodesItems, Json.bytesItems, Json.heightItems, hnodes, hbytes, hheight, hnodes',
      hbytes', List.length_cons, List.map_cons, List.sum_cons, true_and]
    omega

/-- What the mode of an edit adds to the path. -/
lemma normalizeMode_size {mode : Fields} (h : normalizeMode args limits = .ok mode) :
    2 + Json.nodesMembers mode = canonicalNodes "edit" args ∧
      4 + pathBytes args + Json.bytesMembers mode = canonicalBytes "edit" args ∧
      Json.heightMembers mode ≤ 3 := by
  unfold normalizeMode at h
  split_ifs at h with hone
  · simp [reject] at h
  split at h
  · rename_i content hcontent
    have hreplacements : args.get? "replacements" = none := by
      simpa [hcontent] using hone
    unfold normalizeContent at h
    split at h
    · rename_i text _
      split at h
      · rename_i ref href
        obtain ⟨⟨s, _⟩, hs, rfl⟩ := except_last_eq_ok.mp h
        have hsize := text_size hs
        simp only [textBytes, Fields.restrict] at hsize
        simp [canonicalNodes, canonicalBytes, hreplacements, presentNodes, keptBytes, hcontent, href,
          Json.nodesMembers, Json.nodes, Json.bytesMembers, Json.bytes, Json.heightMembers,
          Json.height, hsize]
      · rename_i href
        obtain rfl := Except.ok.inj h
        simp [canonicalNodes, canonicalBytes, hreplacements, presentNodes, keptBytes, hcontent, href,
          Json.nodesMembers, Json.nodes, Json.bytesMembers, Json.bytes, Json.heightMembers,
          Json.height]
    · simp [reject] at h
  · unfold normalizeReplacements at h
    split_ifs at h
    · simp [reject] at h
    · split at h
      · rename_i item items hreplacements
        split_ifs at h
        · simp [reject] at h
        · obtain ⟨normalized, hnormalized, rfl⟩ := except_last_eq_ok.mp h
          obtain ⟨hnodes, hbytes, hheight⟩ := replacements_size hnormalized
          have hkey : "replacements".utf8ByteSize = 12 := rfl
          have hcount : canonicalNodes "edit" args = 2 + (1 + 3 * (item :: items).length) := by
            rw [canonicalNodes, if_pos rfl, hreplacements]
          have htext : canonicalBytes "edit" args =
              4 + pathBytes args + (12 + ((item :: items).map replacementBytes).sum) := by
            rw [canonicalBytes, if_pos rfl, hreplacements]
          simp only [hcount, htext, Json.nodesMembers, Json.nodes, Json.bytesMembers, Json.bytes,
            Json.heightMembers, Json.height, hnodes, hbytes, hkey]
          omega
      · simp [reject] at h

lemma normalizeEdit_size (h : normalizeEdit args limits = .ok result) :
    HasSize result.args (canonicalNodes "edit" args) (canonicalBytes "edit" args) := by
  obtain ⟨⟨⟩, -, h⟩ := except_bind_eq_ok.mp h
  obtain ⟨⟨p, n, counts⟩, hpath, h⟩ := except_bind_eq_ok.mp h
  obtain ⟨mode, hmode, rfl⟩ := except_last_eq_ok.mp h
  have hp := path_size (Or.inl rfl) hpath
  obtain ⟨hnodes, hbytes, hheight⟩ := normalizeMode_size hmode
  constructor
  · simp only [Json.nodesMembers, Json.nodes]
    omega
  · simp only [Json.bytesMembers, Json.bytes, hp, path_bytes]
    omega
  · simp only [Json.heightMembers, Json.height]
    omega

/-! ### Every tool -/

lemma normalizeTool_again {tool : String} (h : normalizeTool tool args limits = .ok result) :
    ∃ f p, result.args = f p ∧ Renormalizes (normalizeTool tool · limits) args f p := by
  unfold normalizeTool at h ⊢
  split_ifs at h ⊢
  · exact normalizeEdit_again h
  · exact normalizeRead_again h
  · exact normalizeLs_again h
  · exact normalizeSearch_again h
  · exact normalizeText_again ⟨"name", rfl, by decide, by decide⟩ (by decide) h
  · exact normalizeText_again ⟨"cmd", rfl, by decide, by decide⟩ (by decide) h

lemma normalizeTool_size {tool : String} (h : normalizeTool tool args limits = .ok result) :
    HasSize result.args (canonicalNodes tool args) (canonicalBytes tool args) := by
  unfold normalizeTool at h
  split_ifs at h with hedit hread hls hsearch hreferences hrun
  · subst hedit
    exact normalizeEdit_size h
  · subst hread
    exact normalizeRead_size h
  · subst hls
    exact normalizeLs_size h
  · subst hsearch
    exact normalizeSearch_size h
  · subst hreferences
    exact normalizeText_size h
  · have hnodes : canonicalNodes tool args = 3 := by
      simp [canonicalNodes, hedit, hread, hls, hsearch]
    have hbytes : canonicalBytes tool args =
      4 + pathBytes args + (7 + textBytes args commandKeys) := by
      simp [canonicalBytes, hedit, hread, hls, hsearch, hreferences]
    rw [hnodes, hbytes]
    exact normalizeText_size h

/-- The checks of a request of one text member. -/
structure TextAccepted (args : Fields) (keys : List String) (name missingMsg context : String) :
    Prop where
  known : (rejectUnknownArgs args (keys ++ pathArgKeys) context).isOk = true
  text : (requireTextArg args keys name (some missingMsg)).isOk = true
  path : (resolvePathArg args (some ".") none).isOk = true

/-- The checks of an edit. -/
structure EditAccepted (limits : ToolArgLimits) (args : Fields) : Prop where
  known : (rejectUnknownArgs args ["path", "cwd", "content", "replacements", "base_result_ref"]
    "edit").isOk = true
  path : (resolvePathArg args none
    (some "edit requires a top-level path and can only edit one file")).isOk = true
  mode : (normalizeMode args limits).isOk = true

/-- The checks of a read. -/
structure ReadAccepted (limits : ToolArgLimits) (args : Fields) : Prop where
  known : (rejectUnknownArgs args ["path", "cwd", "offset", "limit"] "read").isOk = true
  path : (resolvePathArg args none (some "read requires a path")).isOk = true
  offset : (optionalArg args "offset" (boundedPositiveInt · "offset")).isOk = true
  limit : (optionalArg args "limit"
    (boundedPositiveInt · "limit" (some limits.readMaxLines))).isOk = true

/-- The checks of a search. -/
structure SearchAccepted (args : Fields) : Prop where
  checked : SearchChecked args
  before : (optionalArg args "before_context"
    (boundedNonnegativeInt · "before_context")).isOk = true
  after : (optionalArg args "after_context" (boundedNonnegativeInt · "after_context")).isOk = true
  offset : (optionalArg args "offset" (boundedPositiveInt · "offset")).isOk = true
  limit : (optionalArg args "limit" (boundedPositiveInt · "limit" (some 100))).isOk = true

/-- Every check of the tool accepts the arguments. -/
def Accepts (tool : String) (limits : ToolArgLimits) (args : Fields) : Prop :=
  if tool = "edit" then EditAccepted limits args
  else if tool = "read" then ReadAccepted limits args
  else if tool = "ls" then
    (rejectUnknownArgs args ["path", "cwd"] "list_dir").isOk = true ∧
      (resolvePathArg args (some ".") none).isOk = true
  else if tool = "search" then SearchAccepted args
  else if tool = "references" then
    TextAccepted args referencesSymbolKeys "symbol" "find_references requires a symbol"
      "find_references"
  else if tool ∈ ["run", "shell"] then
    TextAccepted args commandKeys "command" s!"{tool} requires a command" tool
  else False

lemma accepts_of_ok {tool : String} (h : normalizeTool tool args limits = .ok result) :
    Accepts tool limits args := by
  unfold normalizeTool at h
  unfold Accepts
  split_ifs at h ⊢
  · obtain ⟨_, hknown, h⟩ := except_bind_eq_ok.mp h
    obtain ⟨⟨_, _, _⟩, hpath, h⟩ := except_bind_eq_ok.mp h
    obtain ⟨_, hmode, -⟩ := except_bind_eq_ok.mp h
    exact ⟨isOk_iff.mpr ⟨_, hknown⟩, isOk_iff.mpr ⟨_, hpath⟩, isOk_iff.mpr ⟨_, hmode⟩⟩
  · obtain ⟨_, hknown, h⟩ := except_bind_eq_ok.mp h
    obtain ⟨⟨_, _⟩, hpath, h⟩ := except_bind_eq_ok.mp h
    obtain ⟨_, hoffset, h⟩ := except_bind_eq_ok.mp h
    obtain ⟨_, hlimit, -⟩ := except_bind_eq_ok.mp h
    exact ⟨isOk_iff.mpr ⟨_, hknown⟩, isOk_iff.mpr ⟨_, hpath⟩, isOk_iff.mpr ⟨_, hoffset⟩,
      isOk_iff.mpr ⟨_, hlimit⟩⟩
  · obtain ⟨_, hknown, h⟩ := except_bind_eq_ok.mp h
    obtain ⟨_, hpath, -⟩ := except_bind_eq_ok.mp h
    exact ⟨isOk_iff.mpr ⟨_, hknown⟩, isOk_iff.mpr ⟨_, hpath⟩⟩
  · obtain ⟨_, hknown, h⟩ := except_bind_eq_ok.mp h
    obtain ⟨⟨_, _⟩, hquery, h⟩ := except_bind_eq_ok.mp h
    obtain ⟨⟨_, _⟩, hpath, h⟩ := except_bind_eq_ok.mp h
    obtain ⟨_, h₁, h⟩ := except_bind_eq_ok.mp h
    obtain ⟨_, h₂, h⟩ := except_bind_eq_ok.mp h
    obtain ⟨_, h₃, h⟩ := except_bind_eq_ok.mp h
    obtain ⟨_, h₄, h⟩ := except_bind_eq_ok.mp h
    obtain ⟨_, h₅, h⟩ := except_bind_eq_ok.mp h
    obtain ⟨_, h₆, h⟩ := except_bind_eq_ok.mp h
    obtain ⟨_, h₇, h⟩ := except_bind_eq_ok.mp h
    obtain ⟨_, h₈, -⟩ := except_bind_eq_ok.mp h
    exact ⟨⟨isOk_iff.mpr ⟨_, hknown⟩, isOk_iff.mpr ⟨_, hquery⟩, isOk_iff.mpr ⟨_, hpath⟩,
      isOk_iff.mpr ⟨_, h₁⟩, isOk_iff.mpr ⟨_, h₂⟩, isOk_iff.mpr ⟨_, h₃⟩, isOk_iff.mpr ⟨_, h₄⟩⟩,
      isOk_iff.mpr ⟨_, h₅⟩, isOk_iff.mpr ⟨_, h₆⟩, isOk_iff.mpr ⟨_, h₇⟩, isOk_iff.mpr ⟨_, h₈⟩⟩
  all_goals
    obtain ⟨_, hknown, h⟩ := except_bind_eq_ok.mp h
    obtain ⟨⟨_, _⟩, htext, h⟩ := except_bind_eq_ok.mp h
    obtain ⟨_, hpath, -⟩ := except_bind_eq_ok.mp h
    exact ⟨isOk_iff.mpr ⟨_, hknown⟩, isOk_iff.mpr ⟨_, htext⟩, isOk_iff.mpr ⟨_, hpath⟩⟩

lemma ok_of_textAccepted {keys : List String} {name msg context : String} (kind : String)
    (h : TextAccepted args keys name msg context) :
    ∃ result, normalizeText args keys name msg kind context = .ok result := by
  obtain ⟨_, hknown⟩ := isOk_iff.mp h.known
  obtain ⟨⟨text, aliased⟩, htext⟩ := isOk_iff.mp h.text
  obtain ⟨⟨p, repairs⟩, hpath⟩ := isOk_iff.mp h.path
  simp only [normalizeText, hknown, htext, hpath]
  exact ⟨_, rfl⟩

/-- When every check accepts, the tool returns something. -/
lemma ok_of_accepts {tool : String} (h : Accepts tool limits args) :
    ∃ result, normalizeTool tool args limits = .ok result := by
  unfold Accepts at h
  unfold normalizeTool
  split_ifs at h ⊢
  · obtain ⟨_, hknown⟩ := isOk_iff.mp h.known
    obtain ⟨⟨p, n, counts⟩, hpath⟩ := isOk_iff.mp h.path
    obtain ⟨mode, hmode⟩ := isOk_iff.mp h.mode
    simp only [normalizeEdit, hknown, hpath, hmode]
    exact ⟨_, rfl⟩
  · obtain ⟨_, hknown⟩ := isOk_iff.mp h.known
    obtain ⟨⟨p, repairs⟩, hpath⟩ := isOk_iff.mp h.path
    obtain ⟨offset, hoffset⟩ := isOk_iff.mp h.offset
    obtain ⟨limit, hlimit⟩ := isOk_iff.mp h.limit
    simp only [normalizeRead, hknown, hpath, hoffset, hlimit]
    exact ⟨_, rfl⟩
  · obtain ⟨_, hknown⟩ := isOk_iff.mp h.1
    obtain ⟨⟨p, n, counts⟩, hpath⟩ := isOk_iff.mp h.2
    simp only [normalizeLs, hknown, hpath]
    exact ⟨_, rfl⟩
  · obtain ⟨_, hknown⟩ := isOk_iff.mp h.checked.known
    obtain ⟨⟨query, aliased⟩, hquery⟩ := isOk_iff.mp h.checked.query
    obtain ⟨⟨p, repairs⟩, hpath⟩ := isOk_iff.mp h.checked.path
    obtain ⟨_, h₁⟩ := isOk_iff.mp h.checked.literal
    obtain ⟨_, h₂⟩ := isOk_iff.mp h.checked.caseSensitive
    obtain ⟨_, h₃⟩ := isOk_iff.mp h.checked.included
    obtain ⟨_, h₄⟩ := isOk_iff.mp h.checked.excluded
    obtain ⟨_, h₅⟩ := isOk_iff.mp h.before
    obtain ⟨_, h₆⟩ := isOk_iff.mp h.after
    obtain ⟨_, h₇⟩ := isOk_iff.mp h.offset
    obtain ⟨_, h₈⟩ := isOk_iff.mp h.limit
    simp only [normalizeSearch, hknown, hquery, hpath, h₁, h₂, h₃, h₄, h₅, h₆, h₇, h₈]
    exact ⟨_, rfl⟩
  · exact ok_of_textAccepted _ h
  · exact ok_of_textAccepted _ h

/-! ### When the promise is kept -/

/-- What the normalizer promises: it raises repair errors only, and returns arguments with a
confined path that it returns unchanged, without a repair, when it is run on them. -/
def ConfinedAndStable (lower : String → String) (toolName : String) (args : Sent)
    (limits : ToolArgLimits) : Prop :=
  match normalizeToolArgs lower toolName args limits with
  | .error (.repair _ _) => True
  | .error (.value _) => False
  | .ok result =>
    (∀ path, result.args.get? "path" = some path → ∃ p, path = .str p ∧ Confined p) ∧
      normalizeToolArgs lower toolName (.json (.obj result.args)) limits = .ok ⟨result.args, 0, []⟩

/-- No number of context lines is overlong and, if every check accepts, the path is firm and the
canonical form of the arguments fits the decoder. -/
def Kept (tool : String) (limits : ToolArgLimits) (args : Fields) : Prop :=
  (tool = "search" → ¬ ReadsOverlong args) ∧
    (Accepts tool limits args → PathFirm args ∧
      canonicalNodes tool args ≤ defaultJsonLimits.maxNodes ∧
      canonicalBytes tool args ≤ defaultJsonLimits.maxStringBytes)

lemma decode_members {sent : Sent} {members : Fields}
    (h : decodeJsonObject defaultJsonLimits sent = .ok members) :
    sent = .json (.obj members) ∧ Fits defaultJsonLimits members := by
  cases sent with
  | foreign message => cases h
  | json value =>
    have hobj : value = .obj members := by
      simp only [decodeJsonObject] at h
      cases hvalue : Decoder.value defaultJsonLimits {} 0 value with
      | error message => simp [hvalue] at h
      | ok d =>
        rw [hvalue] at h
        cases value <;> cases h
        rfl
    subst hobj
    exact ⟨rfl, (decodeJsonObject_eq_ok.mp h).1⟩

/-- An object that fits reaches the normalizer of its tool as it is. -/
lemma normalizeToolArgs_eq_ok {lower : String → String} {toolName : String} :
    normalizeToolArgs lower toolName (.json (.obj args)) limits = .ok result ↔
      Fits defaultJsonLimits args ∧
        normalizeTool (runtimeTool lower toolName) args limits = .ok result := by
  unfold normalizeToolArgs
  cases hdecode : decodeJsonObject defaultJsonLimits (.json (.obj args)) with
  | error message =>
    have hnot : ¬ Fits defaultJsonLimits args := fun hfits => by
      rw [decodeJsonObject_eq_ok.mpr ⟨hfits, rfl⟩] at hdecode
      cases hdecode
    simp [hnot, reject]
  | ok decoded =>
    obtain ⟨hfits, rfl⟩ := decodeJsonObject_eq_ok.mp hdecode
    simp [hfits]

/-- The promise is kept exactly for the arguments that the decoder refuses, and for those it
accepts that are `Kept`. -/
theorem confined_and_stable_iff (lower : String → String) (toolName : String) (sent : Sent)
    (limits : ToolArgLimits) :
    ConfinedAndStable lower toolName sent limits ↔
      ∀ members, sent = .json (.obj members) → Fits defaultJsonLimits members →
        Kept (runtimeTool lower toolName) limits members := by
  cases hdecode : decodeJsonObject defaultJsonLimits sent with
  | error message =>
    simp only [ConfinedAndStable, normalizeToolArgs, hdecode, reject, true_iff]
    rintro members rfl hfits
    rw [decodeJsonObject_eq_ok.mpr ⟨hfits, rfl⟩] at hdecode
    cases hdecode
  | ok members =>
    obtain ⟨rfl, hfits⟩ := decode_members hdecode
    have hquant : (∀ members', Sent.json (.obj members) = .json (.obj members') →
        Fits defaultJsonLimits members' → Kept (runtimeTool lower toolName) limits members') ↔
        Kept (runtimeTool lower toolName) limits members := by
      constructor
      · exact fun h => h members rfl hfits
      · rintro h members' heq -
        cases heq
        exact h
    have hfirst : normalizeToolArgs lower toolName (.json (.obj members)) limits =
        normalizeTool (runtimeTool lower toolName) members limits := by
      rw [normalizeToolArgs, hdecode]
    rw [hquant, ConfinedAndStable, hfirst, Kept]
    simp only [normalizeToolArgs_eq_ok]
    generalize runtimeTool lower toolName = tool
    cases hrun : normalizeTool tool members limits with
    | error e =>
      have hrefused : ¬ Accepts tool limits members := fun haccepts => by
        obtain ⟨result, hok⟩ := ok_of_accepts haccepts
        rw [hrun] at hok
        cases hok
      have hraises := raises_normalizeTool members tool limits
      rw [hrun] at hraises
      cases e with
      | repair message kind =>
        have hnot : ¬ (tool = "search" ∧ ReadsOverlong members) := fun h => by
          obtain ⟨_, hvalue⟩ := hraises.mpr h
          cases hvalue
        simp only [true_iff]
        exact ⟨fun htool hlong => hnot ⟨htool, hlong⟩, fun haccepts => absurd haccepts hrefused⟩
      | value message =>
        obtain ⟨htool, hlong⟩ := hraises.mp ⟨message, rfl⟩
        simp only [false_iff, not_and]
        exact fun h => absurd hlong (h htool)
    | ok result =>
      have hraises : ¬ (tool = "search" ∧ ReadsOverlong members) := by
        rw [← raises_normalizeTool members tool limits, hrun]
        exact not_raises_ok _
      obtain ⟨f, p, hargs, hagain⟩ := normalizeTool_again hrun
      have hsize := (normalizeTool_size hrun).fits_iff
      dsimp only
      rw [hargs] at hsize ⊢
      simp only [accepts_of_ok hrun, true_implies, ← hagain.iff, ← hsize]
      tauto

/-- Folding `./` exposes a drive, which the normalizer refuses when it meets it again, or a blank,
which it strips. -/
theorem folding_exposes :
    ¬ ConfinedAndStable id "read" (.json (.obj [("path", .str "./C:/x")])) {} ∧
      ¬ ConfinedAndStable id "read" (.json (.obj [("path", .str "./ a")])) {} := by
  have hdrive : normalizeToolArgs id "read" (.json (.obj [("path", .str "./C:/x")])) =
      .ok ⟨[("path", .str "C:/x")], 1, [("path_normalized", 1)]⟩ := by decide +kernel
  have hblank : normalizeToolArgs id "read" (.json (.obj [("path", .str "./ a")])) =
      .ok ⟨[("path", .str " a")], 1, [("path_normalized", 1)]⟩ := by decide +kernel
  rw [ConfinedAndStable, ConfinedAndStable, hdrive, hblank]
  constructor
  · rintro ⟨-, hagain⟩
    revert hagain
    decide +kernel
  · rintro ⟨-, hagain⟩
    revert hagain
    decide +kernel

end Toolchain

end Codey
