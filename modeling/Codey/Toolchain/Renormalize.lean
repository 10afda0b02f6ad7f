import Codey.Toolchain.PathRepair

/-!
# Normalizing once more

What each check returns passes the same check again, and is returned as it is. Only the path may
be folded further.
-/

namespace Codey

namespace Toolchain

variable {args args' : Fields} {key : String} {keys : List String}

/-! ### Members -/

@[simp] lemma get?_member (k : String) (v : Option Json) :
    (member k v).get? key = if k = key then v else none := by
  cases v <;> simp [member]

lemma restrict_cons (args : Fields) (key : String) (keys : List String) :
    args.restrict (key :: keys) = member key (args.get? key) ++ args.restrict keys := by
  cases h : args.get? key <;> simp [Fields.restrict, member, h]

lemma restrict_of_none (h : ∀ key ∈ keys, args.get? key = none) : args.restrict keys = [] := by
  induction keys with
  | nil => rfl
  | cons key keys ih =>
    rw [restrict_cons, h key (by simp), ih fun k hk => h k (by simp [hk])]
    rfl

lemma rejectUnknownArgs_eq_ok {context : String} {u : Unit} :
    rejectUnknownArgs args keys context = .ok u ↔ ∀ m ∈ args, m.1 ∈ keys := by
  simp [rejectUnknownArgs]

lemma mem_member {k : String} {v : Option Json} {m : String × Json} (h : m ∈ member k v) :
    m.1 = k := by
  cases v with
  | none => cases h
  | some v =>
    obtain rfl := List.mem_singleton.mp h
    rfl

lemma get?_eq_none_of_keys (h : ∀ m ∈ args, m.1 ∈ keys) (hkey : key ∉ keys) :
    args.get? key = none := by
  induction args with
  | nil => rfl
  | cons m args ih =>
    obtain ⟨k, v⟩ := m
    have hk : k ≠ key := fun he => hkey (he ▸ h (k, v) (by simp))
    simpa [hk] using ih fun m' hm' => h m' (List.mem_cons_of_mem _ hm')

/-! ### Texts -/

variable {name : String}

lemma requireTextArg_first {msg : Option String} {allowBlank : Bool} {s : String}
    (hkey : args.get? key = some (.str s)) (hrest : ∀ k ∈ keys, args.get? k = none)
    (hs : allowBlank = true ∨ strip s.toList ≠ []) :
    requireTextArg args (key :: keys) name msg allowBlank = .ok (s, none) := by
  rw [requireTextArg, restrict_cons, hkey, restrict_of_none hrest]
  rcases hs with rfl | hs
  · simp [member]
  · simp [member, hs]

/-- An accepted text is the one that is present, and blank only where that is allowed. -/
lemma requireTextArg_eq_ok {msg : Option String} {allowBlank : Bool} {s : String}
    {aliased : Option String}
    (h : requireTextArg args keys name msg allowBlank = .ok (s, aliased)) :
    (∃ k, args.restrict keys = [(k, .str s)]) ∧ (allowBlank = true ∨ strip s.toList ≠ []) := by
  unfold requireTextArg at h
  split at h
  · simp [reject] at h
  · rename_i k val hrestrict
    by_cases hblank : (!allowBlank && (strip val.toList).isEmpty) = true
    · simp [hblank, reject] at h
    · rw [if_neg hblank] at h
      obtain ⟨rfl, -⟩ := Prod.mk.inj (Except.ok.inj h)
      exact ⟨⟨k, hrestrict⟩, by simpa [or_iff_not_imp_left] using hblank⟩
  · simp [reject] at h
  · simp [conflict, reject] at h

/-! ### Numbers -/

variable {maximum : Option Int}

/-- A number that was read is accepted as a number. -/
lemma boundedInt_again {low : Int} {invalid : String} {overlong : List Char → ArgsError}
    {value : Json} {n : Int} {coerced : Bool}
    (h : boundedInt low invalid overlong value name maximum = .ok (n, coerced)) :
    boundedInt low invalid overlong (.int n) name maximum = .ok (n, false) := by
  have hbounded : ∀ {parsed : Int} {c : Bool},
      (if parsed < low then (reject (name ++ invalid) : Except ArgsError (Int × Bool))
      else if maximum.any (· < parsed) then reject (s!"{name} must be at most {maximum.getD 0}")
      else .ok (parsed, c)) = .ok (n, coerced) →
      ¬ n < low ∧ ¬ maximum.any (· < n) = true := by
    intro parsed c h
    split_ifs at h with hlow hmax
    · simp [reject] at h
    · simp [reject] at h
    · obtain ⟨rfl, -⟩ := Prod.mk.inj (Except.ok.inj h)
      exact ⟨hlow, hmax⟩
  have hrange : ¬ n < low ∧ ¬ maximum.any (· < n) = true := by
    unfold boundedInt at h
    split at h
    · exact hbounded h
    · split at h
      · simp [reject] at h
      · split at h
        · cases h
        · exact hbounded h
    · simp [reject] at h
  simp [boundedInt, hrange.1, hrange.2]

/-- An optional argument that is sent again as it was returned. -/
lemma optionalArg_again {β : Type} {check : Json → Except ArgsError β} {o : Option β}
    (f : β → Json) (g : β → β) (h : optionalArg args key check = .ok o)
    (hget : args'.get? key = o.map f)
    (hcheck : ∀ v b, check v = .ok b → check (f b) = .ok (g b)) :
    optionalArg args' key check = .ok (o.map g) := by
  unfold optionalArg at h ⊢
  rw [hget]
  split at h
  · obtain rfl := Except.ok.inj h
    rfl
  · obtain ⟨b, hb, rfl⟩ := except_last_eq_ok.mp h
    simp [hcheck _ b hb, except_bind_eq_ok]

/-- A number that is sent again. -/
def uncoerced (n : Int × Bool) : Int × Bool := (n.1, false)

lemma optionalNumber_again {check : Json → Except ArgsError (Int × Bool)}
    {o : Option (Int × Bool)} (h : optionalArg args key check = .ok o)
    (hget : args'.get? key = o.map fun n => .int n.1)
    (hcheck : ∀ v n, check v = .ok n → check (.int n.1) = .ok (n.1, false)) :
    optionalArg args' key check = .ok (o.map uncoerced) :=
  optionalArg_again (fun n => .int n.1) uncoerced h hget hcheck

@[simp] lemma numberMember_uncoerced (k : String) (o : Option (Int × Bool)) :
    numberMember k (o.map uncoerced) = numberMember k o := by
  cases o <;> rfl

@[simp] lemma recordCoerced_uncoerced (repairs : Nat × Counts) (o : Option (Int × Bool)) :
    recordCoerced repairs (o.map uncoerced) = repairs := by
  cases o <;> rfl

/-! ### Flags and globs -/

variable {v w : Json}

lemma checkBool_eq_ok (h : checkBool key v = .ok w) : w = v := by
  unfold checkBool at h
  split at h
  · exact (Except.ok.inj h).symm
  · simp [reject] at h

lemma checkInclude_eq_ok (h : checkInclude v = .ok w) : w = v := by
  unfold checkInclude at h
  split at h
  · split_ifs at h
    · exact (Except.ok.inj h).symm
    · simp [reject] at h
  · simp [reject] at h

lemma checkExclude_eq_ok (h : checkExclude v = .ok w) : w = v := by
  unfold checkExclude at h
  split at h
  · split_ifs at h
    · exact (Except.ok.inj h).symm
    · simp [reject] at h
  · simp [reject] at h

lemma optionalArg_kept {check : Json → Except ArgsError Json} {o : Option Json}
    (hcheck : ∀ v w, check v = .ok w → w = v) (h : optionalArg args key check = .ok o) :
    o = args.get? key := by
  unfold optionalArg at h
  split at h
  · rename_i hnone
    rw [hnone]
    exact (Except.ok.inj h).symm
  · rename_i v hsome
    obtain ⟨w, hw, hval⟩ := except_bind_eq_ok.mp h
    rw [hsome, ← Except.ok.inj hval, hcheck v w hw]

lemma optionalArg_kept_again {check : Json → Except ArgsError Json} {o : Option Json}
    (hcheck : ∀ v w, check v = .ok w → w = v) (h : optionalArg args key check = .ok o)
    (hget : args'.get? key = o) : optionalArg args' key check = .ok o := by
  rw [optionalArg_kept hcheck h] at hget
  unfold optionalArg at h ⊢
  rwa [hget]

/-! ### The path -/

def sentPath (args : Fields) : Option String :=
  match args.restrict pathArgKeys with
  | [(_, .str raw)] => some raw
  | _ => none

def PathFirm (args : Fields) : Prop := ∀ raw, sentPath args = some raw → Firm raw

def RootDefault (defaultPath : Option String) : Prop := defaultPath = none ∨ defaultPath = some "."

variable {defaultPath missingMsg : Option String} {p : String} {repairs : Nat × Counts}

/-- The path that is returned is left as it is, and confined, when the one that was sent is firm. -/
lemma resolvePathArg_again (hdefault : RootDefault defaultPath)
    (h : resolvePathArg args defaultPath missingMsg = .ok (p, repairs)) :
    (normalizePath (.str p) = .ok (p, false) ∧ Confined p) ↔ PathFirm args := by
  unfold resolvePathArg at h
  unfold PathFirm sentPath
  split at h
  · rename_i hnone
    simp only [hnone, reduceCtorEq, false_implies, implies_true, iff_true]
    rcases hdefault with rfl | rfl
    · simp [reject] at h
    · have hroot : normalizePath (.str ".") = .ok (".", false) := rfl
      simp only [hroot, bind, Except.bind, Except.ok.injEq, Prod.mk.injEq] at h
      obtain ⟨rfl, -⟩ := h
      exact ⟨hroot, Or.inl rfl⟩
  · rename_i key rawPath hone
    obtain ⟨⟨q, changed⟩, hq, hval⟩ := except_last_eq_ok.mp h
    obtain ⟨rfl, -⟩ := Prod.mk.inj hval
    cases rawPath with
    | str raw =>
      simp only [hone, Option.some.injEq, forall_eq']
      exact normalizePath_again hq
    | _ => simp [normalizePath, reject] at hq
  · simp [conflict, reject] at h

/-- Arguments with a path under its own name. -/
structure HasPath (args : Fields) (p : String) : Prop where
  path : args.get? "path" = some (.str p)
  cwd : args.get? "cwd" = none

lemma HasPath.resolve (h : HasPath args p) :
    resolvePathArg args defaultPath missingMsg =
      normalizePath (.str p) >>= fun r => .ok (r.1, pathRepairs false r.2) := by
  have hrestrict : args.restrict pathArgKeys = [("path", .str p)] := by
    simp [pathArgKeys, h.path, h.cwd, Fields.restrict]
  unfold resolvePathArg
  rw [hrestrict]
  rfl

/-- The normalizer, run on arguments of its own shape `f p`, only folds the path. -/
structure Renormalizes (run : Fields → Except ArgsError ToolArgsRepairResult) (args : Fields)
    (f : String → Fields) (p : String) : Prop where
  source : ∃ defaultPath missingMsg repairs, RootDefault defaultPath ∧
    resolvePathArg args defaultPath missingMsg = .ok (p, repairs)
  path : HasPath (f p) p
  again : run (f p) = normalizePath (.str p) >>= fun r =>
    .ok ⟨f r.1, (pathRepairs false r.2).1, (pathRepairs false r.2).2⟩

/-- Arguments are returned unchanged, with a confined path, when the path that was sent is firm. -/
lemma Renormalizes.iff {run : Fields → Except ArgsError ToolArgsRepairResult}
    {f : String → Fields} (h : Renormalizes run args f p) :
    ((∀ path, (f p).get? "path" = some path → ∃ q, path = .str q ∧ Confined q) ∧
      run (f p) = .ok ⟨f p, 0, []⟩) ↔ PathFirm args := by
  obtain ⟨defaultPath, missingMsg, repairs, hdefault, hresolve⟩ := h.source
  rw [← resolvePathArg_again hdefault hresolve, h.again, h.path.path]
  simp only [Option.some.injEq, forall_eq', Json.str.injEq, exists_eq_left']
  rw [and_comm]
  refine and_congr_left fun _ => ?_
  constructor
  · intro hrun
    obtain ⟨⟨q, changed⟩, hq, hval⟩ := except_last_eq_ok.mp hrun
    have hcount := congrArg ToolArgsRepairResult.aliasRewriteCount hval
    cases changed with
    | true => cases hcount
    | false =>
      obtain ⟨-, -, -, -, hchanged⟩ := normalizePath_str_eq_ok.mp hq
      obtain rfl : q = p := by simpa using hchanged
      exact hq
  · intro hp
    rw [hp]
    rfl

/-! ### The tools -/

variable {result : ToolArgsRepairResult}

lemma normalizeLs_again (h : normalizeLs args = .ok result) :
    ∃ f p, result.args = f p ∧ Renormalizes normalizeLs args f p := by
  obtain ⟨⟨⟩, -, h⟩ := except_bind_eq_ok.mp h
  obtain ⟨⟨p, n, counts⟩, hpath, rfl⟩ := except_last_eq_ok.mp h
  have hhas : HasPath [("path", .str p)] p := ⟨by simp, by simp⟩
  refine ⟨fun p => [("path", .str p)], p, rfl, ⟨_, _, _, Or.inr rfl, hpath⟩, hhas, ?_⟩
  have hknown : rejectUnknownArgs [("path", .str p)] ["path", "cwd"] "list_dir" = .ok () :=
    rejectUnknownArgs_eq_ok.mpr (by simp)
  simp only [normalizeLs, hknown, hhas.resolve]
  cases normalizePath (.str p) <;> rfl

lemma normalizeText_again {name msg kind context : String}
    (hkeys : ∃ other, keys = [name, other] ∧ other ≠ name ∧ other ≠ "path")
    (hname : name ≠ "path" ∧ name ≠ "cwd")
    (h : normalizeText args keys name msg kind context = .ok result) :
    ∃ f p, result.args = f p ∧
      Renormalizes (normalizeText · keys name msg kind context) args f p := by
  obtain ⟨⟨⟩, -, h⟩ := except_bind_eq_ok.mp h
  obtain ⟨⟨text, aliased⟩, htext, h⟩ := except_bind_eq_ok.mp h
  obtain ⟨⟨p, repairs⟩, hpath, rfl⟩ := except_last_eq_ok.mp h
  obtain ⟨other, rfl, hother, hnot⟩ := hkeys
  have hhas : HasPath [(name, .str text), ("path", .str p)] p :=
    ⟨by simp [hname.1], by simp [hname.2]⟩
  refine ⟨fun p => [(name, .str text), ("path", .str p)], p, rfl,
    ⟨_, _, _, Or.inr rfl, hpath⟩, hhas, ?_⟩
  have hknown : rejectUnknownArgs [(name, .str text), ("path", .str p)]
      ([name, other] ++ pathArgKeys) context = .ok () :=
    rejectUnknownArgs_eq_ok.mpr (by simp [pathArgKeys])
  have hfirst : requireTextArg [(name, .str text), ("path", .str p)] [name, other] name (some msg) =
      .ok (text, none) := by
    refine requireTextArg_first (by simp) (fun k hk => ?_) (requireTextArg_eq_ok htext).2
    obtain rfl := List.mem_singleton.mp hk
    simp [hother.symm, hnot.symm]
  simp only [normalizeText, hknown, hfirst, hhas.resolve]
  cases normalizePath (.str p) with
  | error e => rfl
  | ok r =>
    obtain ⟨q, changed⟩ := r
    cases changed <;> rfl

lemma positive_again :
    ∀ v n, boundedPositiveInt v name maximum = .ok n →
      boundedPositiveInt (.int n.1) name maximum = .ok (n.1, false) :=
  fun _ _ h => boundedInt_again h

lemma nonnegative_again :
    ∀ v n, boundedNonnegativeInt v name maximum = .ok n →
      boundedNonnegativeInt (.int n.1) name maximum = .ok (n.1, false) :=
  fun _ _ h => boundedInt_again h

variable {limits : ToolArgLimits}

lemma normalizeRead_again (h : normalizeRead args limits = .ok result) :
    ∃ f p, result.args = f p ∧ Renormalizes (normalizeRead · limits) args f p := by
  obtain ⟨⟨⟩, -, h⟩ := except_bind_eq_ok.mp h
  obtain ⟨⟨p, repairs⟩, hpath, h⟩ := except_bind_eq_ok.mp h
  obtain ⟨offset, hoffset, h⟩ := except_bind_eq_ok.mp h
  obtain ⟨limit, hlimit, rfl⟩ := except_last_eq_ok.mp h
  refine ⟨fun p => ("path", .str p) ::
    (numberMember "offset" offset ++ numberMember "limit" limit), p, rfl, ?_⟩
  generalize hargs : (("path", Json.str p) ::
    (numberMember "offset" offset ++ numberMember "limit" limit) : Fields) = args'
  have hhas : HasPath args' p := by
    rw [← hargs]
    exact ⟨by simp, by simp [numberMember]⟩
  have hoffset' : optionalArg args' "offset" (boundedPositiveInt · "offset") =
      .ok (offset.map uncoerced) :=
    optionalNumber_again hoffset (by simp [← hargs, numberMember]) positive_again
  have hlimit' : optionalArg args' "limit"
      (boundedPositiveInt · "limit" (some limits.readMaxLines)) = .ok (limit.map uncoerced) :=
    optionalNumber_again hlimit (by simp [← hargs, numberMember]) positive_again
  have hknown : rejectUnknownArgs args' ["path", "cwd", "offset", "limit"] "read" = .ok () := by
    refine rejectUnknownArgs_eq_ok.mpr fun m hm => ?_
    rw [← hargs] at hm
    simp only [List.mem_cons, List.mem_append] at hm
    rcases hm with rfl | hm | hm
    · simp
    · simp [mem_member hm]
    · simp [mem_member hm]
  refine ⟨⟨_, _, _, Or.inl rfl, hpath⟩, by simpa only [hargs] using hhas, ?_⟩
  simp only [hargs, normalizeRead, hknown, hoffset', hlimit', hhas.resolve]
  cases normalizePath (.str p) with
  | error e => rfl
  | ok r =>
    simp only [bind, Except.bind, recordCoerced_uncoerced, numberMember_uncoerced]

lemma normalizeSearch_again (h : normalizeSearch args = .ok result) :
    ∃ f p, result.args = f p ∧ Renormalizes normalizeSearch args f p := by
  obtain ⟨⟨⟩, -, h⟩ := except_bind_eq_ok.mp h
  obtain ⟨⟨query, aliased⟩, hquery, h⟩ := except_bind_eq_ok.mp h
  obtain ⟨⟨p, repairs⟩, hpath, h⟩ := except_bind_eq_ok.mp h
  obtain ⟨literal, hliteral, h⟩ := except_bind_eq_ok.mp h
  obtain ⟨caseSensitive, hcase, h⟩ := except_bind_eq_ok.mp h
  obtain ⟨included, hincluded, h⟩ := except_bind_eq_ok.mp h
  obtain ⟨excluded, hexcluded, h⟩ := except_bind_eq_ok.mp h
  obtain ⟨before, hbefore, h⟩ := except_bind_eq_ok.mp h
  obtain ⟨after, hafter, h⟩ := except_bind_eq_ok.mp h
  obtain ⟨offset, hoffset, h⟩ := except_bind_eq_ok.mp h
  obtain ⟨limit, hlimit, rfl⟩ := except_last_eq_ok.mp h
  refine ⟨fun p => ("query", .str query) :: ("path", .str p) ::
    (member "literal" literal ++ member "case_sensitive" caseSensitive ++
      member "include" included ++ member "exclude" excluded ++
      numberMember "before_context" before ++ numberMember "after_context" after ++
      numberMember "offset" offset ++ numberMember "limit" limit), p, rfl, ?_⟩
  generalize hargs : (("query", Json.str query) :: ("path", Json.str p) ::
    (member "literal" literal ++ member "case_sensitive" caseSensitive ++
      member "include" included ++ member "exclude" excluded ++
      numberMember "before_context" before ++ numberMember "after_context" after ++
      numberMember "offset" offset ++ numberMember "limit" limit) : Fields) = args'
  have hhas : HasPath args' p := by
    rw [← hargs]
    exact ⟨by simp, by simp [numberMember]⟩
  have hquery' : requireTextArg args' searchQueryKeys "query" (some "grep requires a query") =
      .ok (query, none) := by
    refine requireTextArg_first (by simp [← hargs]) (fun k hk => ?_) (requireTextArg_eq_ok hquery).2
    obtain rfl := List.mem_singleton.mp hk
    simp [← hargs, numberMember]
  have hliteral' : optionalArg args' "literal" (checkBool "literal") = .ok literal :=
    optionalArg_kept_again (fun _ _ => checkBool_eq_ok) hliteral (by simp [← hargs, numberMember])
  have hcase' : optionalArg args' "case_sensitive" (checkBool "case_sensitive") =
      .ok caseSensitive :=
    optionalArg_kept_again (fun _ _ => checkBool_eq_ok) hcase (by simp [← hargs, numberMember])
  have hincluded' : optionalArg args' "include" checkInclude = .ok included :=
    optionalArg_kept_again (fun _ _ => checkInclude_eq_ok) hincluded
      (by simp [← hargs, numberMember])
  have hexcluded' : optionalArg args' "exclude" checkExclude = .ok excluded :=
    optionalArg_kept_again (fun _ _ => checkExclude_eq_ok) hexcluded
      (by simp [← hargs, numberMember])
  have hbefore' : optionalArg args' "before_context" (boundedNonnegativeInt · "before_context") =
      .ok (before.map uncoerced) :=
    optionalNumber_again hbefore (by simp [← hargs, numberMember]) nonnegative_again
  have hafter' : optionalArg args' "after_context" (boundedNonnegativeInt · "after_context") =
      .ok (after.map uncoerced) :=
    optionalNumber_again hafter (by simp [← hargs, numberMember]) nonnegative_again
  have hoffset' : optionalArg args' "offset" (boundedPositiveInt · "offset") =
      .ok (offset.map uncoerced) :=
    optionalNumber_again hoffset (by simp [← hargs, numberMember]) positive_again
  have hlimit' : optionalArg args' "limit" (boundedPositiveInt · "limit" (some 100)) =
      .ok (limit.map uncoerced) :=
    optionalNumber_again hlimit (by simp [← hargs, numberMember]) positive_again
  have hknown : rejectUnknownArgs args' searchArgs "grep" = .ok () := by
    refine rejectUnknownArgs_eq_ok.mpr fun m hm => ?_
    rw [← hargs] at hm
    simp only [List.mem_cons, List.mem_append] at hm
    rcases hm with rfl | rfl | (((((((hm | hm) | hm) | hm) | hm) | hm) | hm) | hm)
    · exact (by decide : "query" ∈ searchArgs)
    · exact (by decide : "path" ∈ searchArgs)
    all_goals
      rw [mem_member hm]
      decide
  refine ⟨⟨_, _, _, Or.inr rfl, hpath⟩, by simpa only [hargs] using hhas, ?_⟩
  simp only [hargs, normalizeSearch, hknown, hquery', hliteral', hcase', hincluded', hexcluded',
    hbefore', hafter', hoffset', hlimit', hhas.resolve]
  cases normalizePath (.str p) with
  | error e => rfl
  | ok r =>
    obtain ⟨q, changed⟩ := r
    simp only [bind, Except.bind, List.foldl_cons, List.foldl_nil, recordCoerced_uncoerced,
      numberMember_uncoerced]
    cases changed <;> rfl

lemma normalizeReplacement_again (h : normalizeReplacement v = .ok w) :
    normalizeReplacement w = .ok w := by
  unfold normalizeReplacement at h
  split at h
  · rename_i item
    split_ifs at h
    · simp [reject] at h
    · obtain ⟨⟨⟩, -, h⟩ := except_bind_eq_ok.mp h
      obtain ⟨⟨old, _⟩, hold, h⟩ := except_bind_eq_ok.mp h
      obtain ⟨⟨new, _⟩, hnew, rfl⟩ := except_last_eq_ok.mp h
      have hknown : rejectUnknownArgs [("old_string", .str old), ("new_string", .str new)]
          ["old_string", "new_string"] "edit replacement" = .ok () :=
        rejectUnknownArgs_eq_ok.mpr (by simp)
      have hold' : requireTextArg [("old_string", .str old), ("new_string", .str new)]
          editOldKeys "old_string" = .ok (old, none) :=
        requireTextArg_first (by simp) (by simp) (requireTextArg_eq_ok hold).2
      have hnew' : requireTextArg [("old_string", .str old), ("new_string", .str new)]
          editNewKeys "new_string" none true = .ok (new, none) :=
        requireTextArg_first (by simp) (by simp) (Or.inl rfl)
      simp only [normalizeReplacement, hknown, hold', hnew']
      rfl
  · simp [reject] at h

lemma mapM_again {α : Type} {f : α → Except ArgsError α} (hf : ∀ v w, f v = .ok w → f w = .ok w) :
    ∀ {vs ws : List α}, vs.mapM f = .ok ws → ws.mapM f = .ok ws
  | [], ws, h => by
    obtain rfl : [] = ws := by simpa [pure, Except.pure] using h
    rfl
  | v :: vs, ws, h => by
    rw [List.mapM_cons] at h
    obtain ⟨w, hw, h⟩ := except_bind_eq_ok.mp h
    obtain ⟨rest, hrest, rfl⟩ := except_last_eq_ok.mp h
    rw [List.mapM_cons, hf v w hw, mapM_again hf hrest]
    rfl

lemma length_of_mapM {α : Type} {f : α → Except ArgsError α} :
    ∀ {vs ws : List α}, vs.mapM f = .ok ws → ws.length = vs.length
  | [], ws, h => by
    obtain rfl : [] = ws := by simpa [pure, Except.pure] using h
    rfl
  | v :: vs, ws, h => by
    rw [List.mapM_cons] at h
    obtain ⟨w, -, h⟩ := except_bind_eq_ok.mp h
    obtain ⟨rest, hrest, rfl⟩ := except_last_eq_ok.mp h
    simp [length_of_mapM hrest]

/-- What the two modes of an edit return is accepted again. -/
lemma mode_again {mode : Fields} (h : normalizeMode args limits = .ok mode) :
    (∀ m ∈ mode, m.1 ∈ ["content", "replacements", "base_result_ref"]) ∧
    ∀ args' : Fields, (∀ k, k ≠ "path" → args'.get? k = mode.get? k) →
      normalizeMode args' limits = .ok mode := by
  unfold normalizeMode at h ⊢
  split_ifs at h with hmode
  · simp [reject] at h
  split at h
  · rename_i content _
    unfold normalizeContent at h
    split at h
    · rename_i text _
      split at h
      · obtain ⟨⟨ref, _⟩, href, rfl⟩ := except_last_eq_ok.mp h
        refine ⟨by simp, fun args' hargs => ?_⟩
        have hcontent : args'.get? "content" = some (.str text) := by simp [hargs]
        have hreplacements : args'.get? "replacements" = none := by simp [hargs]
        have href' : args'.get? "base_result_ref" = some (.str ref) := by simp [hargs]
        have htext : requireTextArg args' ["base_result_ref"] "base_result_ref" =
            .ok (ref, none) :=
          requireTextArg_first href' (by simp) (requireTextArg_eq_ok href).2
        simp only [hcontent, hreplacements, normalizeContent, href', htext]
        rfl
      · obtain rfl := Except.ok.inj h
        refine ⟨by simp, fun args' hargs => ?_⟩
        have hcontent : args'.get? "content" = some (.str text) := by simp [hargs]
        have hreplacements : args'.get? "replacements" = none := by simp [hargs]
        have href' : args'.get? "base_result_ref" = none := by simp [hargs]
        simp only [hcontent, hreplacements, normalizeContent, href']
        rfl
    · simp [reject] at h
  · unfold normalizeReplacements at h
    split_ifs at h with href
    · simp [reject] at h
    · split at h
      · rename_i item items _
        split_ifs at h with hcount
        · simp [reject] at h
        · obtain ⟨normalized, hnormalized, rfl⟩ := except_last_eq_ok.mp h
          refine ⟨by simp, fun args' hargs => ?_⟩
          have hcontent : args'.get? "content" = none := by simp [hargs]
          have href' : args'.get? "base_result_ref" = none := by simp [hargs]
          have hlength := length_of_mapM hnormalized
          have hagain := mapM_again (fun _ _ => normalizeReplacement_again) hnormalized
          cases normalized with
          | nil => simp at hlength
          | cons first rest =>
            have hreplacements : args'.get? "replacements" = some (.arr (first :: rest)) := by
              simp [hargs]
            rw [← hlength] at hcount
            simp only [hcontent, hreplacements, normalizeReplacements, href', hcount, hagain]
            rfl
      · simp [reject] at h

lemma normalizeEdit_again (h : normalizeEdit args limits = .ok result) :
    ∃ f p, result.args = f p ∧ Renormalizes (normalizeEdit · limits) args f p := by
  obtain ⟨⟨⟩, -, h⟩ := except_bind_eq_ok.mp h
  obtain ⟨⟨p, n, counts⟩, hpath, h⟩ := except_bind_eq_ok.mp h
  obtain ⟨mode, hmode, rfl⟩ := except_last_eq_ok.mp h
  obtain ⟨hkeys, hagain⟩ := mode_again hmode
  have hhas : HasPath (("path", .str p) :: mode) p :=
    ⟨by simp, by simpa using get?_eq_none_of_keys hkeys (by decide : "cwd" ∉ _)⟩
  have hknown : rejectUnknownArgs (("path", .str p) :: mode)
      ["path", "cwd", "content", "replacements", "base_result_ref"] "edit" = .ok () := by
    refine rejectUnknownArgs_eq_ok.mpr fun m hm => ?_
    rcases List.mem_cons.mp hm with rfl | hm
    · simp
    · exact List.mem_cons_of_mem _ (List.mem_cons_of_mem _ (hkeys m hm))
  refine ⟨fun p => ("path", .str p) :: mode, p, rfl, ⟨_, _, _, Or.inl rfl, hpath⟩, hhas, ?_⟩
  have hmode' := hagain (("path", .str p) :: mode) fun k hk => by simp [hk.symm]
  simp only [normalizeEdit, hknown, hmode', hhas.resolve]
  cases normalizePath (.str p) <;> rfl

end Toolchain

end Codey
