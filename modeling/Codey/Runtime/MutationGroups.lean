import Codey.Lib.Segments
import Codey.Runtime.FileMutationQueue

/-!
# Races within a group

The groups of a turn are its calls in order. Calls of one group do not race, exactly when no edit is
strictly above or below another call since the last group began.
-/

namespace Codey

namespace FileMutationQueue

open PosixPath Segments

variable {project : Text} {call a b : ToolCall} {groups : List (List Nat)}

/-! ### Paths -/

/-- What `_normalize_rel` leaves is written from named components. -/
lemma exists_normalizeRel (path : Text) :
    ∃ comps, (∀ c ∈ comps, Named c) ∧ normalizeRel path = render comps := by
  unfold normalizeRel
  dsimp only
  generalize strip _ = text
  obtain ⟨comps, hcomps, hleft⟩ := exists_lstripDots_normpath text
  have hdrop := lstripDots_dropUps (normpath text)
  split_ifs with hblank hnone hempty
  · exact ⟨[], by simp, rfl⟩
  · exact ⟨[], by simp, rfl⟩
  · exact ⟨[], by simp, rfl⟩
  · refine ⟨comps, hcomps, ?_⟩
    rw [hdrop, hleft] at hempty ⊢
    rw [render, if_neg]
    rintro rfl
    exact hempty rfl

lemma normalizeRel_inj {p q : Text} (h : parts (normalizeRel p) = parts (normalizeRel q)) :
    normalizeRel p = normalizeRel q := by
  obtain ⟨comps, hcomps, hp⟩ := exists_normalizeRel p
  obtain ⟨comps', hcomps', hq⟩ := exists_normalizeRel q
  rw [hp, hq, parts_render hcomps, parts_render hcomps'] at h
  rw [hp, hq, h]

/-- Calls have one key when their paths have the same components. -/
lemma canonicalPath_eq_iff :
    canonicalPath project a = canonicalPath project b ↔
      parts (canonicalPath project a) = parts (canonicalPath project b) := by
  refine ⟨congrArg parts, fun h => ?_⟩
  unfold canonicalPath at h ⊢
  dsimp only at h ⊢
  generalize (if project = [] then ['.'] else normalizeRel project) = scope at h ⊢
  by_cases hscope : scope ≠ ['.']
  · rw [if_pos hscope, if_pos hscope, parts_append, parts_append, List.append_cancel_left_eq] at h
    rw [if_pos hscope, if_pos hscope, normalizeRel_inj h]
  · rw [if_neg hscope, if_neg hscope] at h
    rw [if_neg hscope, if_neg hscope, normalizeRel_inj h]

/-! ### Races -/

/-- The tools that only read, and those that are given a path. -/
def readers : List String := ["read", "ls", "search", "references"]

def mutates (call : ToolCall) : Bool := decide (call.name ∉ readers)

/-- The components of the path that a call is on. A call without a path is on the whole tree. -/
def target (project : Text) (call : ToolCall) : List Text :=
  if call.name = "edit" ∨ call.name ∈ readers then parts (canonicalPath project call) else []

/-- A path equals, contains or lies under another one. -/
def Touch (p q : List Text) : Prop := p <+: q ∨ q <+: p

instance (p q : List Text) : Decidable (Touch p q) := inferInstanceAs (Decidable (_ ∨ _))

def Race (project : Text) (a b : ToolCall) : Prop :=
  mutates a = true ∧ Touch (target project a) (target project b)

structure Separates (project : Text) (calls : List ToolCall) (groups : List (List Nat)) : Prop where
  partition : groups.flatten = List.range calls.length
  nonempty : [] ∉ groups
  raceFree : ∀ g ∈ groups, ∀ i ∈ g, ∀ j ∈ g, i ≠ j → ∀ a b, calls[i]? = some a →
    calls[j]? = some b → ¬Race project a b

/-- A call that may have side effects or reads the whole tree. -/
def serial (project : Text) (call : ToolCall) : Bool := (scopeForCall project call).1 = .serial

def edits (call : ToolCall) : Bool := call.name = "edit"

def Clash (project : Text) (a b : ToolCall) : Bool :=
  (edits a || edits b) && target project a = target project b

/-- A call runs with those before it when none of them is serial or clashes with it. -/
def runsWith (project : Text) (held : List ToolCall) (call : ToolCall) : Bool :=
  !serial project call && held.all fun before => !serial project before && !Clash project before call

def Nested (project : Text) (a b : ToolCall) : Prop :=
  (edits a = true ∨ edits b = true) ∧ target project a ≠ target project b ∧
    Touch (target project a) (target project b)

instance (project : Text) (a b : ToolCall) : Decidable (Nested project a b) :=
  inferInstanceAs (Decidable (_ ∧ _ ∧ _))

def Untangled (project : Text) (calls : List ToolCall) : Prop :=
  Along (runsWith project) (fun a b => ¬Nested project a b) [] calls

/-- The scopes of calls. -/
lemma scope_cases (project : Text) (call : ToolCall) :
    (∃ key, scopeForCall project call = (.serial, key)) ∨
      (scopeForCall project call = (.write, canonicalPath project call) ∧ call.name = "edit") ∨
      (scopeForCall project call = (.read, canonicalPath project call) ∧ call.name ∈ readers) := by
  unfold scopeForCall
  dsimp only
  by_cases hname : call.name = ""
  · rw [if_pos hname]
    exact .inl ⟨"unknown".toList, by simp⟩
  · rw [if_neg hname]
    split_ifs with hrun hedit hread hls hroot hsearch hroot'
    · exact .inl ⟨_, rfl⟩
    · exact .inr (.inl ⟨rfl, hedit⟩)
    · exact .inr (.inr ⟨rfl, by simp [hread, readers]⟩)
    · exact .inl ⟨_, rfl⟩
    · exact .inr (.inr ⟨rfl, by simp [hls, readers]⟩)
    · exact .inl ⟨_, rfl⟩
    · refine .inr (.inr ⟨rfl, ?_⟩)
      rcases hsearch with h | h
      · simp [h, readers]
      · simp [h, readers]
    · exact .inl ⟨_, rfl⟩

lemma scope_of_serial (h : serial project call = true) :
    ∃ key, scopeForCall project call = (.serial, key) := by
  simp only [serial, decide_eq_true_eq] at h
  exact ⟨(scopeForCall project call).2, Prod.ext h rfl⟩

lemma mutates_of_edit (h : call.name = "edit") : mutates call = true := by
  simp [mutates, readers, h]

/-- A call that is not serial is on its path, and only edits change that. -/
lemma scope_of_not_serial (h : serial project call = false) :
    scopeForCall project call =
        (if edits call then .write else .read, canonicalPath project call) ∧
      target project call = parts (canonicalPath project call) ∧ mutates call = edits call := by
  rcases scope_cases project call with ⟨key, hscope⟩ | ⟨hscope, hedit⟩ | ⟨hscope, hread⟩
  · simp [serial, hscope] at h
  · refine ⟨?_, if_pos (.inl hedit), ?_⟩
    · simpa [edits, hedit] using hscope
    · rw [mutates_of_edit hedit]
      simpa [edits] using hedit
  · have hedits : edits call = false := by
      simp only [edits, decide_eq_false_iff_not]
      rintro hedit
      simp [hedit, readers] at hread
    refine ⟨?_, if_pos (.inr hread), ?_⟩
    · simpa [hedits] using hscope
    · rw [hedits]
      simpa [mutates] using hread

lemma target_eq_iff (ha : serial project a = false) (hb : serial project b = false) :
    target project a = target project b ↔ canonicalPath project a = canonicalPath project b := by
  rw [(scope_of_not_serial ha).2.1, (scope_of_not_serial hb).2.1, canonicalPath_eq_iff]

/-! ### The groups of a plan -/

structure Holds (project : Text) (g : Group) (held : List (ToolCall × Nat)) : Prop where
  members : g.members = held.map Prod.snd
  barrier : g.barrier = true ↔ ∃ m ∈ held, serial project m.1 = true
  writes : ∀ key, key ∈ g.writes ↔ ∃ m ∈ held, scopeForCall project m.1 = (.write, key)
  reads : ∀ key, key ∈ g.reads ↔ ∃ m ∈ held, scopeForCall project m.1 = (.read, key)

lemma not_clash_iff (ha : serial project a = false) (hb : serial project b = false) :
    Clash project a b = false ↔
      scopeForCall project a ≠ (.write, canonicalPath project b) ∧
        (edits b = true → scopeForCall project a ≠ (.read, canonicalPath project b)) := by
  rw [(scope_of_not_serial ha).1]
  simp only [Clash, target_eq_iff ha hb]
  cases edits a <;> cases edits b <;> simp

variable {held : List (ToolCall × Nat)} {g : Group}

lemma runsWith_iff (hholds : Holds project g held) (hcall : serial project call = false) :
    runsWith project (held.map Prod.fst) call = true ↔
      g.barrier = false ∧ canonicalPath project call ∉ g.writes ∧
        (edits call = true → canonicalPath project call ∉ g.reads) := by
  have hbarrier : g.barrier = false ↔ ∀ m ∈ held, serial project m.1 = false := by
    rw [← Bool.not_eq_true, hholds.barrier]
    simp
  rw [hbarrier, hholds.writes, hholds.reads]
  simp only [runsWith, hcall, Bool.not_false, Bool.true_and, List.all_map, List.all_eq_true,
    Function.comp_apply, Bool.and_eq_true, Bool.not_eq_true', not_exists, not_and]
  constructor
  · intro h
    refine ⟨fun m hm => (h m hm).1, fun m hm => ?_, fun hedits m hm => ?_⟩
    · exact ((not_clash_iff (h m hm).1 hcall).mp (h m hm).2).1
    · exact ((not_clash_iff (h m hm).1 hcall).mp (h m hm).2).2 hedits
  · rintro ⟨hserial, hwrites, hreads⟩ m hm
    exact ⟨hserial m hm, (not_clash_iff (hserial m hm) hcall).mpr
      ⟨hwrites m hm, fun hedits => hreads hedits m hm⟩⟩

def opened (index : Nat) : Scope × Text → Group
  | (.write, key) => { members := [index], writes := [key] }
  | (.read, key) => { members := [index], reads := [key] }
  | (.serial, _) => { members := [index], barrier := true }
  | (.other, _) => { members := [index] }

/-- The group at hand with one more call. -/
def joined (g : Group) (index : Nat) : Scope × Text → Group
  | (.write, key) => { g with members := g.members ++ [index], writes := key :: g.writes }
  | (.read, key) => { g with members := g.members ++ [index], reads := key :: g.reads }
  | _ => { g with members := g.members ++ [index] }

lemma place_nil (index : Nat) (scope : Scope × Text) : place [] index scope =
    [opened index scope] := by
  rcases scope with ⟨_ | _ | _ | _, key⟩ <;> rfl

/-- A call joins the group at hand when it runs with what that holds. -/
lemma place_cons (hholds : Holds project g held) (rest : List Group) (call : ToolCall)
    (index : Nat) :
    place (g :: rest) index (scopeForCall project call) =
      if runsWith project (held.map Prod.fst) call then
        joined g index (scopeForCall project call) :: rest
      else opened index (scopeForCall project call) :: g :: rest := by
  cases hserial : serial project call with
  | true =>
    obtain ⟨key, hscope⟩ := scope_of_serial hserial
    rw [hscope, runsWith, hserial]
    rfl
  | false =>
    have hruns := runsWith_iff hholds hserial
    rw [(scope_of_not_serial hserial).1]
    cases hedits : edits call with
    | true =>
      rw [hedits] at hruns
      simp only [if_true, place, opened, joined]
      refine if_congr ?_ rfl rfl
      rw [hruns]
      simp [and_assoc]
    | false =>
      rw [hedits] at hruns
      simp only [place, opened, joined, Bool.false_eq_true, if_false]
      rw [← ite_not]
      refine if_congr ?_ rfl rfl
      rw [hruns]
      simp

lemma holds_opened (call : ToolCall) (index : Nat) :
    Holds project (opened index (scopeForCall project call)) [(call, index)] := by
  cases hserial : serial project call with
  | true =>
    obtain ⟨key, hscope⟩ := scope_of_serial hserial
    rw [hscope]
    exact ⟨rfl, by simp [opened, hserial], by simp [opened, hscope], by simp [opened, hscope]⟩
  | false =>
    have hscope := (scope_of_not_serial hserial).1
    cases hedits : edits call with
    | true =>
      rw [hedits] at hscope
      rw [hscope]
      refine ⟨rfl, by simp [opened, hserial], fun key => ?_, by simp [opened, hscope]⟩
      simp [opened, hscope, eq_comm]
    | false =>
      rw [hedits] at hscope
      rw [hscope]
      refine ⟨rfl, by simp [opened, hserial], by simp [opened, hscope], fun key => ?_⟩
      simp [opened, hscope, eq_comm]

lemma holds_joined (hholds : Holds project g held) (hserial : serial project call = false)
    (index : Nat) :
    Holds project (joined g index (scopeForCall project call)) (held ++ [(call, index)]) := by
  have hscope := (scope_of_not_serial hserial).1
  cases hedits : edits call with
  | true =>
    rw [hedits] at hscope
    rw [hscope]
    refine ⟨by simp [joined, hholds.members], ?_, fun key => ?_, fun key => ?_⟩
    · simp [joined, hholds.barrier, hserial]
    · simp [joined, hholds.writes, hscope, or_comm, eq_comm]
    · simp [joined, hholds.reads, hscope]
  | false =>
    rw [hedits] at hscope
    rw [hscope]
    refine ⟨by simp [joined, hholds.members], ?_, fun key => ?_, fun key => ?_⟩
    · simp [joined, hholds.barrier, hserial]
    · simp [joined, hholds.writes, hscope]
    · simp [joined, hholds.reads, hscope, or_comm, eq_comm]

/-- The calls of a turn with their indices, each of which joins the segment that it runs with. -/
def joinsHeld (project : Text) (held : List (ToolCall × Nat)) (x : ToolCall × Nat) : Bool :=
  runsWith project (held.map Prod.fst) x.1

/-- The groups that are placed from a group at hand on. -/
lemma members_foldl_place (hholds : Holds project g held) (rest : List Group)
    (xs : List (ToolCall × Nat)) :
    (xs.foldl (fun groups item => place groups item.2 (scopeForCall project item.1))
        (g :: rest)).reverse.map (·.members) =
      rest.reverse.map (·.members) ++
        (collect (joinsHeld project) held xs).map (·.map Prod.snd) := by
  induction xs generalizing g held rest with
  | nil => simp [collect, hholds.members]
  | cons x xs ih =>
    obtain ⟨call, index⟩ := x
    have hheld : joinsHeld project held (call, index) = runsWith project (held.map Prod.fst) call :=
      rfl
    rw [List.foldl_cons, collect, hheld, place_cons hholds rest call index]
    by_cases hjoins : runsWith project (held.map Prod.fst) call = true
    · have hserial : serial project call = false := by
        simp only [runsWith, Bool.and_eq_true, Bool.not_eq_true'] at hjoins
        exact hjoins.1
      rw [if_pos hjoins, if_pos hjoins, ih (holds_joined hholds hserial index)]
    · rw [if_neg hjoins, if_neg hjoins, ih (holds_opened call index)]
      simp [hholds.members]

theorem plan_eq (project : Text) (calls : List ToolCall) :
    plan calls project =
      (segments (joinsHeld project) calls.zipIdx).map (·.map Prod.snd) := by
  unfold plan
  cases hcalls : calls.zipIdx with
  | nil => rfl
  | cons x xs =>
    dsimp only
    rw [List.foldl_cons, place_nil, members_foldl_place (holds_opened x.1 x.2) []]
    rfl

/-- Calls that run together race when one of them is nested in the other and either edits. -/
lemma race_iff_nested {held : List ToolCall} (hruns : runsWith project held b = true)
    (ha : a ∈ held) :
    (¬Race project a b ∧ ¬Race project b a) ↔ ¬Nested project a b := by
  simp only [runsWith, Bool.and_eq_true, Bool.not_eq_true', List.all_eq_true] at hruns
  obtain ⟨hb, hheld⟩ := hruns
  obtain ⟨ha, hclash⟩ := hheld a ha
  have hsymm : Touch (target project b) (target project a) ↔
      Touch (target project a) (target project b) := or_comm
  simp only [Clash, Bool.and_eq_false_iff, Bool.or_eq_false_iff, decide_eq_false_iff_not] at hclash
  rw [Race, Race, Nested, (scope_of_not_serial ha).2.2, (scope_of_not_serial hb).2.2, hsymm]
  cases hedits : edits a <;> cases hedits' : edits b <;> simp_all

lemma flatten_plan (project : Text) (calls : List ToolCall) :
    (plan calls project).flatten = List.range calls.length := by
  rw [plan_eq, ← List.map_flatten, segments_flatten, List.zipIdx_map_snd, List.range_eq_range']

lemma nil_notMem_plan (project : Text) (calls : List ToolCall) : [] ∉ plan calls project := by
  rw [plan_eq, List.mem_map]
  rintro ⟨g, hg, hnil⟩
  rw [List.map_eq_nil_iff] at hnil
  exact nil_notMem_segments (hnil ▸ hg)

lemma pairwise_index {calls : List ToolCall} {g : List (ToolCall × Nat)}
    (hg : g ∈ segments (joinsHeld project) calls.zipIdx) : g.Pairwise fun x y => x.2 ≠ y.2 := by
  have hsub : (g.map Prod.snd).Sublist (plan calls project).flatten := by
    rw [plan_eq]
    exact List.sublist_flatten_of_mem (List.mem_map_of_mem hg)
  rw [flatten_plan] at hsub
  exact List.pairwise_map.mp (hsub.nodup List.nodup_range)

lemma getElem?_of_mem_segment {calls : List ToolCall} {g : List (ToolCall × Nat)}
    {x : ToolCall × Nat} (hg : g ∈ segments (joinsHeld project) calls.zipIdx) (hx : x ∈ g) :
    calls[x.2]? = some x.1 := by
  have hmem : x ∈ (segments (joinsHeld project) calls.zipIdx).flatten :=
    List.mem_flatten.mpr ⟨g, hg, hx⟩
  rw [segments_flatten] at hmem
  exact List.mk_mem_zipIdx_iff_getElem?.mp hmem

/-- No two calls of a group race when those of a segment do not, in either order. -/
lemma raceFree_iff (project : Text) (calls : List ToolCall) :
    (∀ g ∈ plan calls project, ∀ i ∈ g, ∀ j ∈ g, i ≠ j → ∀ a b, calls[i]? = some a →
        calls[j]? = some b → ¬Race project a b) ↔
      ∀ g ∈ segments (joinsHeld project) calls.zipIdx,
        g.Pairwise fun x y => ¬Race project x.1 y.1 ∧ ¬Race project y.1 x.1 := by
  rw [plan_eq, List.forall_mem_map]
  refine forall₂_congr fun g hg => ⟨fun h => ?_, fun h => ?_⟩
  · refine (pairwise_index hg).imp_of_mem fun {x y} hx hy hne => ⟨?_, ?_⟩
    · exact h x.2 (List.mem_map_of_mem hx) y.2 (List.mem_map_of_mem hy) hne _ _
        (getElem?_of_mem_segment hg hx) (getElem?_of_mem_segment hg hy)
    · exact h y.2 (List.mem_map_of_mem hy) x.2 (List.mem_map_of_mem hx) hne.symm _ _
        (getElem?_of_mem_segment hg hy) (getElem?_of_mem_segment hg hx)
  · intro i hi j hj hne a b ha hb
    obtain ⟨x, hx, rfl⟩ := List.mem_map.mp hi
    obtain ⟨y, hy, rfl⟩ := List.mem_map.mp hj
    obtain rfl := Option.some.inj ((getElem?_of_mem_segment hg hx).symm.trans ha)
    obtain rfl := Option.some.inj ((getElem?_of_mem_segment hg hy).symm.trans hb)
    have : Std.Symm fun x y : ToolCall × Nat =>
        ¬Race project x.1 y.1 ∧ ¬Race project y.1 x.1 := ⟨fun _ _ hxy => ⟨hxy.2, hxy.1⟩⟩
    exact (h.forall hx hy fun heq => hne (heq ▸ rfl)).1

/-- The groups of a plan are the calls in order, and no two calls of one group race, exactly when no
edit is strictly above or below a call that it runs with. -/
theorem plan_separates_iff (project : Text) (calls : List ToolCall) :
    Separates project calls (plan calls project) ↔ Untangled project calls := by
  have hrace : Separates project calls (plan calls project) ↔
      ∀ g ∈ segments (joinsHeld project) calls.zipIdx,
        g.Pairwise fun x y => ¬Race project x.1 y.1 ∧ ¬Race project y.1 x.1 := by
    rw [← raceFree_iff]
    exact ⟨fun h => h.raceFree,
      fun h => ⟨flatten_plan project calls, nil_notMem_plan project calls, h⟩⟩
  have hnested : ∀ held x, joinsHeld project held x = true → ∀ y ∈ held,
      (¬Race project y.1 x.1 ∧ ¬Race project x.1 y.1) ↔ ¬Nested project y.1 x.1 :=
    fun held x hjoins y hy => race_iff_nested hjoins (List.mem_map_of_mem hy)
  have hjoins : ∀ held x,
      joinsHeld project held x = runsWith project (held.map Prod.fst) x.1 := fun _ _ => rfl
  rw [hrace, pairwise_segments_iff, along_congr hnested]
  refine (along_map Prod.fst (S := fun a b => ¬Nested project a b) hjoins).trans ?_
  rw [List.zipIdx_map_fst]
  rfl

/-- An edit of `src/a` and a listing of `src`. -/
def editBelowListing : List ToolCall :=
  [⟨"edit", [("path", ⟨true, ['s', 'r', 'c', '/', 'a']⟩)]⟩,
    ⟨"ls", [("path", ⟨true, ['s', 'r', 'c']⟩)]⟩]

/-- The listing runs together with the edit below it. -/
theorem not_separates_listing :
    ¬Separates [] editBelowListing (plan editBelowListing []) := by
  intro h
  have hplan : plan editBelowListing [] = [[0, 1]] := by decide +kernel
  refine h.raceFree [0, 1] (by rw [hplan]; simp) 0 (by simp) 1 (by simp) Nat.zero_ne_one _ _ rfl rfl
    ⟨by decide +kernel, ?_⟩
  decide +kernel

end FileMutationQueue

end Codey
