import Codey.Durable.ToolPairs

/-!
# Tool closure of the provider context

A provider context is closed when every call id of a call has exactly one later result and every
result names a call before it. `build_context` returns a closed context exactly when the budget
cuts no call off from its results, and the recorded ids are not used again and are spelled in one
way.
-/

namespace Codey

namespace Context

/-! ### Call ids of messages -/

/-- The call ids of an assistant message. -/
def callIdsOf (message : Fields) : List String :=
  if message.get? "role" = some (.str "assistant") then
    match message.get? "tool_calls" with
    | some (.arr items) => items.filterMap callId
    | _ => []
  else []

def resultIdOf (message : Fields) : Option String :=
  if message.get? "role" = some (.str "tool") then (message.get? "tool_call_id").bind Json.str?
  else none

/-- Every call id is answered by exactly one later tool message, and every tool message with a call
id is preceded by a call with that id. -/
def ToolClosed (messages : List Fields) : Prop :=
  ∀ earlier message later, messages = earlier ++ message :: later →
    (∀ id ∈ callIdsOf message, (later.countP fun m => resultIdOf m = some id) = 1) ∧
    ∀ id, resultIdOf message = some id → ∃ call ∈ earlier, id ∈ callIdsOf call

/-- The call ids of the message of an entry. A call without a list of calls is its own only call. -/
def statedIds (e : EntryDraft) : List String :=
  if e.kind = "tool_call" then
    if e.payload.get? "tool_calls" = none then (callId (.obj e.payload)).toList else toolCallIds e
  else []

def answeredId (e : EntryDraft) : Option String :=
  if e.kind = "tool_result" then
    ((e.payload.get? "call_id").bind Json.str?).filter (· ≠ "")
  else none

variable {io : Host} {cs recent : List EntryDraft}

lemma callIdsOf_messageFor (e : EntryDraft) : callIdsOf (messageFor io e) = statedIds e := by
  unfold messageFor statedIds
  split_ifs <;> simp_all [callIdsOf, toolCallIds, calls]
  · rw [List.filterMap_cons, List.filterMap_nil]
    cases callId (.obj e.payload) <;> rfl
  · cases hcalls : e.payload.get? "tool_calls" with
    | none => contradiction
    | some value => cases value <;> simp

lemma resultIdOf_messageFor (e : EntryDraft) : resultIdOf (messageFor io e) = answeredId e := by
  have hid (o : Option String) : ((Fields.get? (o.map fun s => ("tool_call_id", Json.str s)).toList
      "tool_call_id").bind Json.str?) = o := by cases o <;> simp
  unfold messageFor answeredId
  split_ifs <;> simp_all [resultIdOf]

lemma toolCallIds_ne {e : EntryDraft} {id : String} (h : id ∈ toolCallIds e) : id ≠ "" := by
  obtain ⟨call, -, hid⟩ := List.mem_filterMap.mp h
  unfold callId at hid
  split at hid
  · simpa using (Option.filter_eq_some_iff.mp hid).2
  · cases hid

lemma statedIds_of_mem {e : EntryDraft} {id : String} (hkind : e.kind = "tool_call")
    (h : id ∈ toolCallIds e) : statedIds e = toolCallIds e := by
  have hcalls : e.payload.get? "tool_calls" ≠ none := by
    intro hnone
    simp [toolCallIds, calls, hnone] at h
  rw [statedIds, if_pos hkind, if_neg hcalls]

lemma answeredId_missingResult {e : EntryDraft} {id : String} (h : id ≠ "") :
    answeredId (missingResult io e id) = some id := by
  simp [answeredId, missingResult, h]

/-! ### Recorded ids -/

variable (io cs recent)

/-- The call of a result: the newest one before it that prints its id, or that prints no id when
the result has none. -/
def CallOf (c r : EntryDraft) : Prop :=
  ∃ a b d, cs = a ++ c :: (b ++ r :: d) ∧ c.kind = "tool_call" ∧ r.kind = "tool_result" ∧
    (∃ ids, printedIds io c = .ok ids ∧ answersIds io r ids = true) ∧
    ∀ p ∈ b, p.kind = "tool_call" → ∃ ids, printedIds io p = .ok ids ∧ answersIds io r ids = false

/-- A call that the context needs: a recent result is its own, or it is recent and lists an id. -/
def Needed (c : EntryDraft) : Prop :=
  c.kind = "tool_call" ∧
    ((∃ r ∈ recent, CallOf io cs c r) ∨ (c ∈ recent ∧ toolCallIds c ≠ []))

/-- An entry records an id: a call that lists it, or a result of some call that names it. -/
def Records (id : String) (e : EntryDraft) : Prop :=
  (e.kind = "tool_call" ∧ id ∈ toolCallIds e) ∨ (answeredId e = some id ∧ ∃ c, CallOf io cs c e)

/-- A result that a look-up of the id finds, in whatever type it is spelled. -/
def matched (id : String) (e : EntryDraft) : Bool :=
  e.kind = "tool_result" && io.member e.payload "call_id" = id

/-- The budget keeps a result of a call and cuts off the call, and an id of the call is recorded by
nothing that the budget keeps. -/
def CutCall : Prop :=
  ∃ c, Needed io cs recent c ∧ c ∉ recent ∧ ∃ id ∈ statedIds c, ∀ e ∈ recent, ¬ Records io cs id e

/-- From a needed call on, a recent entry records an id of it and a later entry records the id
again. The earlier one is the result, or a call without a result. -/
def RecordedAgain : Prop :=
  ∃ a c b, cs = a ++ c :: b ∧ Needed io cs recent c ∧ ∃ id ∈ statedIds c, ∃ x e y f z,
    c :: b = x ++ e :: (y ++ f :: z) ∧ e ∈ recent ∧ Records io cs id e ∧ Records io cs id f ∧
      (e.kind = "tool_call" → ∀ g ∈ y ++ f :: z, matched io id g = false)

/-- Calls and results spell an id in two ways. Nothing behind a recent call records an id of it,
though the call does not list the id or a result prints it; or a recent result records an id that
no needed call before it states. -/
def Misspelled : Prop :=
  (∃ a c b, cs = a ++ c :: b ∧ c ∈ recent ∧ Needed io cs recent c ∧ ∃ id ∈ statedIds c,
    (∀ e ∈ b, ¬ Records io cs id e) ∧ (id ∈ toolCallIds c → ∃ r ∈ b, matched io id r = true)) ∨
  ∃ a r b, cs = a ++ r :: b ∧ r ∈ recent ∧ ∃ id, answeredId r = some id ∧ Records io cs id r ∧
    ∀ c ∈ a, Needed io cs recent c → id ∉ statedIds c

/-! ### Answers -/

/-- A candidate of the window contributes a result with the id: it is such a result and has a call,
or a call with the id that no later result answers. -/
def answers (id : String) (e : EntryDraft) : Bool :=
  recent.contains e && (((ownCall io cs e).isSome && answeredId e = some id)
    || (openIds io cs e).contains id)

def Kept (c : EntryDraft) : Prop :=
  c.kind = "tool_call" ∧ (c ∈ owners io cs recent ∨ (c ∈ recent ∧ toolCallIds c ≠ []))

variable {io cs recent}

lemma mem_shown_of_kept {c : EntryDraft} (h : Kept io cs recent c) : c ∈ shown io cs recent c := by
  obtain ⟨hkind, h⟩ := h
  unfold shown
  by_cases hc : c ∈ recent
  · have hs : survives io cs recent c = true := by
      simp only [survives, hkind, if_true, Bool.or_eq_true, decide_eq_true_eq,
        List.contains_iff_mem]
      exact h.symm.imp And.right id
    simp [hc, hs]
  · simp [hc, h.resolve_right fun h => hc h.1]

lemma shown_cases {e x : EntryDraft} (h : x ∈ shown io cs recent e) :
    (x = e ∨ x ∈ missing io cs e) ∧
      shown io cs recent e = e :: if e ∈ recent then missing io cs e else [] := by
  unfold shown at h ⊢
  split at h <;> split at h <;> simp_all

lemma kept_of_mem_shown {e : EntryDraft} (hkind : e.kind = "tool_call")
    (h : e ∈ shown io cs recent e) : Kept io cs recent e := by
  refine ⟨hkind, ?_⟩
  unfold shown at h
  split at h
  · rename_i hrecent
    split at h
    · rename_i hs
      simp only [survives, hkind, if_true, Bool.or_eq_true, decide_eq_true_eq,
        List.contains_iff_mem] at hs
      exact hs.symm.imp id fun hids => ⟨hrecent, hids⟩
    · cases h
  · split at h
    · rename_i hown
      exact Or.inl hown
    · cases h

lemma answeredId_call {e : EntryDraft} (h : e.kind = "tool_call") : answeredId e = none := by
  simp [answeredId, h]

lemma countP_missing (e : EntryDraft) (id : String) :
    (missing io cs e).countP (fun f => answeredId f = some id) =
      if (openIds io cs e).contains id then 1 else 0 := by
  have hids : ∀ i ∈ openIds io cs e, answeredId (missingResult io e i) = some i := fun i hi =>
    answeredId_missingResult (toolCallIds_ne (mem_openIds.mp hi).2.1)
  rw [missing, List.countP_map]
  have hcount : (openIds io cs e).countP ((fun f => decide (answeredId f = some id)) ∘
      missingResult io e) = (openIds io cs e).count id := by
    refine List.countP_congr fun i hi => ?_
    simp [hids i hi]
  rw [hcount]
  have hnodup : (openIds io cs e).Nodup := by
    unfold openIds
    split
    · exact nodup_eraseDups _
    · exact List.nodup_nil
  split
  · rename_i hmem
    exact List.count_eq_one_of_mem hnodup (List.contains_iff_mem.mp hmem)
  · rename_i hmem
    exact List.count_eq_zero.mpr (by simpa using hmem)

/-- A candidate contributes one answer to an id or none. -/
lemma countP_shown (io : Host) (cs recent : List EntryDraft) (e : EntryDraft) (id : String) :
    (shown io cs recent e).countP (fun f => answeredId f = some id) =
      if answers io cs recent id e then 1 else 0 := by
  by_cases hrecent : e ∈ recent
  · rw [Newest.shown_of_mem hrecent, List.countP_append, countP_missing]
    by_cases hcall : e.kind = "tool_call"
    · have hnone := answeredId_call hcall
      have hfirst : (if survives io cs recent e then [e] else []).countP
          (fun f => answeredId f = some id) = 0 := by
        split <;> simp [hnone]
      simp [hfirst, answers, hrecent, hnone]
    · have hopen : openIds io cs e = [] := by simp [openIds, hcall]
      by_cases hresult : e.kind = "tool_result"
      · have hs : survives io cs recent e = (ownCall io cs e).isSome := by
          simp [survives, hresult]
        rw [hs]
        cases hown : (ownCall io cs e).isSome <;>
          simp [hopen, answers, hrecent, hown, List.countP_cons]
      · have hnone : answeredId e = none := by simp [answeredId, hresult]
        have hfirst : (if survives io cs recent e then [e] else []).countP
            (fun f => answeredId f = some id) = 0 := by
          split <;> simp [hnone]
        simp [hfirst, hopen, answers, hrecent, hnone]
  · have hother : answers io cs recent id e = false := by simp [answers, hrecent]
    rw [shown, if_neg hrecent, hother]
    split
    · rename_i hown
      simp [answeredId_call (owners_mem hown).2]
    · simp

/-! ### Answers of a window -/

variable (io cs recent)

def AnsweredOnce : Prop :=
  ∀ a c b, cs = a ++ c :: b → Kept io cs recent c → ∀ id ∈ statedIds c,
    (c :: b).countP (answers io cs recent id) = 1

def Asked : Prop :=
  ∀ a r b, cs = a ++ r :: b → r ∈ recent → (ownCall io cs r).isSome = true →
    ∀ id, answeredId r = some id → ∃ c ∈ a, Kept io cs recent c ∧ id ∈ statedIds c

variable {io cs recent}

lemma countP_flatMap_shown (l : List EntryDraft) (id : String) :
    (l.flatMap (shown io cs recent)).countP (fun f => answeredId f = some id) =
      l.countP (answers io cs recent id) := by
  induction l with
  | nil => rfl
  | cons e l ih =>
    rw [List.flatMap_cons, List.countP_append, ih, countP_shown io cs recent, List.countP_cons,
      Nat.add_comm]

/-- The answers behind a kept call. -/
lemma countP_after {a b p q : List EntryDraft} {c : EntryDraft} (id : String)
    (hfresh : FreshIds cs) (hcs : cs = a ++ c :: b) (hkind : c.kind = "tool_call")
    (hc : shown io cs recent c = p ++ c :: q) :
    p = [] ∧ (q ++ b.flatMap (shown io cs recent)).countP (fun f => answeredId f = some id) =
      (c :: b).countP (answers io cs recent id) := by
  have hmem : c ∈ shown io cs recent c := by simp [hc]
  have hnodup := Newest.shown_nodup io recent hfresh
    (show c ∈ cs by simp [hcs])
  have hp : p = [] := by
    rw [(shown_cases hmem).2] at hc hnodup
    cases p with
    | nil => rfl
    | cons d p =>
      obtain ⟨rfl, htail⟩ := List.cons.inj hc
      exact absurd (by rw [htail]; simp) (List.nodup_cons.mp hnodup).1
  refine ⟨hp, ?_⟩
  have hcount := countP_shown io cs recent c id
  rw [hc, hp, List.nil_append, List.countP_cons, answeredId_call hkind] at hcount
  rw [List.countP_append, countP_flatMap_shown, List.countP_cons, ← hcount]
  simp [Nat.add_comm]

lemma countP_messages (io : Host) (l : List EntryDraft) (id : String) :
    (l.map (messageFor io)).countP (fun m => resultIdOf m = some id) =
      l.countP fun f => answeredId f = some id := by
  rw [List.countP_map]
  refine List.countP_congr fun f _ => ?_
  simp [resultIdOf_messageFor]

lemma flatMap_of_split {a b : List EntryDraft} {e : EntryDraft} (hcs : cs = a ++ e :: b)
    (f : EntryDraft → List EntryDraft) : cs.flatMap f = a.flatMap f ++ (f e ++ b.flatMap f) := by
  rw [hcs, List.flatMap_append, List.flatMap_cons]

lemma kind_of_stated {e : EntryDraft} {id : String} (h : id ∈ statedIds e) :
    e.kind = "tool_call" := by
  by_contra hkind
  simp [statedIds, hkind] at h

lemma kind_of_answered {e : EntryDraft} {id : String} (h : answeredId e = some id) :
    e.kind = "tool_result" := by
  by_contra hkind
  simp [answeredId, hkind] at h

lemma kept_of_stated {l : List EntryDraft} {c : EntryDraft} {id : String}
    (hc : c ∈ l.flatMap (shown io cs recent)) (hid : id ∈ statedIds c) :
    c ∈ l ∧ Kept io cs recent c := by
  obtain ⟨e, he, hce⟩ := List.mem_flatMap.mp hc
  have hkind := kind_of_stated hid
  rcases (shown_cases hce).1 with rfl | hmissing
  · exact ⟨he, kept_of_mem_shown hkind hce⟩
  · obtain ⟨i, -, rfl⟩ := mem_missing.mp hmissing
    simp at hkind

lemma result_of_mem_shown {r : EntryDraft} (hkind : r.kind = "tool_result")
    (h : r ∈ shown io cs recent r) : r ∈ recent ∧ (ownCall io cs r).isSome = true := by
  unfold shown at h
  split at h <;> split at h
  · rename_i hr hs
    exact ⟨hr, by simpa [survives, hkind] using hs⟩
  · cases h
  · rename_i hown
    rw [(owners_mem hown).2] at hkind
    simp at hkind
  · cases h

section
variable (hclosed : ToolClosed ((cs.flatMap (shown io cs recent)).map (messageFor io)))
include hclosed

lemma answeredOnce_of_closed (hfresh : FreshIds cs) : AnsweredOnce io cs recent := by
  intro a c b hcs hkept id hid
  obtain ⟨p, q, hsplit⟩ := List.append_of_mem (mem_shown_of_kept hkept)
  obtain ⟨rfl, hafter⟩ := countP_after id hfresh hcs hkept.1 hsplit
  rw [← hafter, ← countP_messages io]
  refine (hclosed ((a.flatMap (shown io cs recent)).map (messageFor io)) (messageFor io c) _ ?_).1
    id ?_
  · rw [flatMap_of_split hcs, hsplit]
    simp
  · rwa [callIdsOf_messageFor]

lemma asked_of_closed : Asked io cs recent := by
  intro a r b hcs hr hown id hid
  have hkind := kind_of_answered hid
  have hshown : shown io cs recent r = [r] := by
    simp [shown, hr, survives, hkind, hown, missing, openIds]
  have hflat : (cs.flatMap (shown io cs recent)).map (messageFor io) =
      (a.flatMap (shown io cs recent)).map (messageFor io) ++
        messageFor io r :: (b.flatMap (shown io cs recent)).map (messageFor io) := by
    rw [flatMap_of_split hcs, hshown]
    simp
  obtain ⟨m, hm, hmid⟩ := (hclosed _ _ _ hflat).2 id (by rwa [resultIdOf_messageFor])
  obtain ⟨c, hc, rfl⟩ := List.mem_map.mp hm
  rw [callIdsOf_messageFor] at hmid
  obtain ⟨hca, hkept⟩ := kept_of_stated hc hmid
  exact ⟨c, hca, hkept, hmid⟩

end

/-- A result that is shown stands behind a call with its id. -/
lemma exists_call (hasked : Asked io cs recent) {a b p q : List EntryDraft}
    {e x : EntryDraft} {id : String} (hcs : cs = a ++ e :: b)
    (hshown : shown io cs recent e = p ++ x :: q) (hid : answeredId x = some id) :
    ∃ c ∈ a.flatMap (shown io cs recent) ++ p, id ∈ statedIds c := by
  have hx : x ∈ shown io cs recent e := by simp [hshown]
  rcases (shown_cases hx).1 with rfl | hmissing
  · obtain ⟨hrecent, hown⟩ := result_of_mem_shown (kind_of_answered hid) hx
    obtain ⟨c, hc, hkept, hstated⟩ := hasked a x b hcs hrecent hown id hid
    exact ⟨c, List.mem_append_left _ (List.mem_flatMap.mpr ⟨c, hc, mem_shown_of_kept hkept⟩),
      hstated⟩
  · -- a missing result stands behind its own call
    obtain ⟨i, ⟨hkind, hi, -⟩, rfl⟩ := mem_missing.mp hmissing
    rw [answeredId_missingResult (toolCallIds_ne hi), Option.some.injEq] at hid
    subst hid
    refine ⟨e, List.mem_append_right _ ?_, by rwa [statedIds_of_mem hkind hi]⟩
    rw [(shown_cases hx).2] at hshown
    cases p with
    | nil =>
      rw [(List.cons.inj hshown).1] at hkind
      simp at hkind
    | cons d p =>
      rw [(List.cons.inj hshown).1]
      exact List.mem_cons_self

/-- The messages of the newest candidates are closed when the window answers each kept call once
and asks for each of its results. -/
theorem toolClosed_iff_shown (hfresh : FreshIds cs) :
    ToolClosed ((cs.flatMap (shown io cs recent)).map (messageFor io)) ↔
      AnsweredOnce io cs recent ∧ Asked io cs recent := by
  constructor
  · intro h
    exact ⟨answeredOnce_of_closed h hfresh, asked_of_closed h⟩
  · rintro ⟨honce, hasked⟩ earlier message later hmessages
    obtain ⟨l₁, l₂, hl, rfl, hrest⟩ := List.map_eq_append_iff.mp hmessages
    obtain ⟨x, l₃, rfl, rfl, rfl⟩ := List.map_eq_cons_iff.mp hrest
    obtain ⟨a, e, b, p, q, hcs, hshown, rfl, rfl⟩ := exists_of_flatMap_eq hl
    refine ⟨fun id hid => ?_, fun id hid => ?_⟩
    · rw [callIdsOf_messageFor] at hid
      have hkind := kind_of_stated hid
      have hx : x ∈ shown io cs recent e := by simp [hshown]
      rcases (shown_cases hx).1 with rfl | hmissing
      · rw [countP_messages, (countP_after id hfresh hcs hkind hshown).2]
        exact honce a x b hcs (kept_of_mem_shown hkind hx) id hid
      · obtain ⟨i, -, rfl⟩ := mem_missing.mp hmissing
        simp at hkind
    · rw [resultIdOf_messageFor] at hid
      obtain ⟨c, hc, hcid⟩ := exists_call hasked hcs hshown hid
      exact ⟨messageFor io c, List.mem_map_of_mem hc, by rwa [callIdsOf_messageFor]⟩

/-! ### Recorded failures -/

lemma exists_two {α : Type} {p : α → Bool} {l : List α} (h : 2 ≤ l.countP p) :
    ∃ x e y f z, l = x ++ e :: (y ++ f :: z) ∧ p e = true ∧ p f = true := by
  induction l with
  | nil => simp at h
  | cons e l ih =>
    by_cases he : p e = true
    · rw [List.countP_cons_of_pos he] at h
      obtain ⟨f, hmem, hf⟩ := List.countP_pos_iff.mp (show 0 < l.countP p by omega)
      obtain ⟨y, z, rfl⟩ := List.append_of_mem hmem
      exact ⟨[], e, y, f, z, rfl, he, hf⟩
    · rw [List.countP_cons_of_neg he] at h
      obtain ⟨x, e', y, f, z, rfl, he', hf⟩ := ih h
      exact ⟨e :: x, e', y, f, z, rfl, he', hf⟩

lemma recent_suffix {a b : List EntryDraft} {e : EntryDraft} (hsuffix : recent <:+ cs)
    (hcs : cs = a ++ e :: b) (he : e ∉ recent) : recent <:+ b := by
  rcases List.suffix_or_suffix_of_suffix hsuffix
    (show e :: b <:+ cs from ⟨a, hcs.symm⟩) with h | h
  · rcases List.suffix_cons_iff.mp h with rfl | h
    · exact absurd List.mem_cons_self he
    · exact h
  · exact absurd (h.subset List.mem_cons_self) he

section
variable (hfresh : FreshIds cs)
include hfresh

lemma callOf_iff {c r : EntryDraft} (hr : r ∈ cs) :
    CallOf io cs c r ↔ r.kind = "tool_result" ∧ ownCall io cs r = some c := by
  obtain ⟨a, d, hcs⟩ := List.append_of_mem hr
  have hown : ownCall io cs r = some c ↔ findCall io r a.reverse = .ok (some c) := by
    rw [hfresh.ownCall io hcs]
    cases findCall io r a.reverse <;> simp [Except.toOption]
  rw [hown, findCall_eq_some]
  constructor
  · rintro ⟨a', b, d', hcs', hkind, hresult, hasks, hbetween⟩
    refine ⟨hresult, b.reverse, a'.reverse, ?_, hkind, hasks, by simpa using hbetween⟩
    have hplace : cs = (a' ++ c :: b) ++ r :: d' := by simpa using hcs'
    have hlength : a.length = (a' ++ c :: b).length :=
      Option.some.inj ((hfresh.position? hcs).symm.trans (hfresh.position? hplace))
    rw [(List.append_inj (hcs.symm.trans hplace) hlength).1]
    simp
  · rintro ⟨hresult, b, a', ha, hkind, hasks, hbetween⟩
    refine ⟨a'.reverse, b.reverse, d, ?_, hkind, hresult, hasks, by simpa using hbetween⟩
    rw [hcs, ← List.reverse_reverse a, ha]
    simp

lemma exists_callOf_iff {r : EntryDraft} (hr : r ∈ cs) (hkind : r.kind = "tool_result") :
    (∃ c, CallOf io cs c r) ↔ (ownCall io cs r).isSome = true := by
  simp [callOf_iff hfresh hr, hkind, Option.isSome_iff_exists]

lemma needed_iff (hsuffix : recent <:+ cs) {c : EntryDraft} :
    Needed io cs recent c ↔ Kept io cs recent c := by
  refine and_congr_right fun _ => or_congr_left ?_
  rw [mem_owners]
  exact exists_congr fun r => and_congr_right fun hr => callOf_iff hfresh (hsuffix.subset hr)

variable {a b : List EntryDraft} {e : EntryDraft} {id : String}

lemma mem_openIds_iff (hcs : cs = a ++ e :: b) : id ∈ openIds io cs e ↔
    e.kind = "tool_call" ∧ id ∈ toolCallIds e ∧ ∀ g ∈ b, matched io id g = false := by
  rw [mem_openIds, hfresh.resultOf io hcs, List.find?_eq_none]
  simp [matched]

/-- A candidate answers an id when it is recent and records the id, unless it is a call that has a
result. -/
lemma answers_iff (hcs : cs = a ++ e :: b) : answers io cs recent id e = true ↔
    e ∈ recent ∧ Records io cs id e ∧
      (e.kind = "tool_call" → ∀ g ∈ b, matched io id g = false) := by
  have he : e ∈ cs := by simp [hcs]
  have hopen : id ∈ openIds io cs e ↔ _ := mem_openIds_iff hfresh hcs
  simp only [answers, Bool.and_eq_true, Bool.or_eq_true, List.contains_iff_mem, decide_eq_true_eq,
    hopen]
  refine and_congr_right fun _ => ?_
  constructor
  · rintro (⟨hown, hid⟩ | ⟨hkind, hid, hnone⟩)
    · have hkind := kind_of_answered hid
      exact ⟨Or.inr ⟨hid, (exists_callOf_iff hfresh he hkind).mpr hown⟩,
        fun h => by simp [h] at hkind⟩
    · exact ⟨Or.inl ⟨hkind, hid⟩, fun _ => hnone⟩
  · rintro ⟨⟨hkind, hid⟩ | ⟨hid, hcall⟩, hnone⟩
    · exact Or.inr ⟨hkind, hid, hnone hkind⟩
    · exact Or.inl ⟨(exists_callOf_iff hfresh he (kind_of_answered hid)).mp hcall, hid⟩

lemma records_of_answers (he : e ∈ cs) (h : answers io cs recent id e = true) :
    e ∈ recent ∧ Records io cs id e := by
  obtain ⟨a, b, hcs⟩ := List.append_of_mem he
  obtain ⟨hrecent, hrecords, -⟩ := (answers_iff hfresh hcs).mp h
  exact ⟨hrecent, hrecords⟩

variable (hsuffix : recent <:+ cs)
include hsuffix

lemma suffix_recent (hcs : cs = a ++ e :: b) (he : e ∈ recent) : e :: b <:+ recent := by
  rcases List.suffix_or_suffix_of_suffix hsuffix
    (show e :: b <:+ cs from ⟨a, hcs.symm⟩) with h | h
  · rcases List.suffix_cons_iff.mp h with rfl | h
    · exact List.suffix_rfl
    · have hnodup := hfresh.nodup
      rw [hcs] at hnodup
      exact absurd (h.subset he) (List.nodup_cons.mp (List.nodup_append.mp hnodup).2.1).1
  · exact h

/-- The last recent entry that records an id answers it. -/
lemma exists_answer (hspelled : ¬ Misspelled io cs recent) (hcs : cs = a ++ b)
    (hrecords : ∃ e ∈ b, e ∈ recent ∧ Records io cs id e) :
    ∃ e ∈ b, answers io cs recent id e = true := by
  induction b generalizing a with
  | nil => simp at hrecords
  | cons e b ih =>
    by_cases hlater : ∃ f ∈ b, f ∈ recent ∧ Records io cs id f
    · obtain ⟨f, hf, hanswers⟩ := ih (a := a ++ [e]) (by simpa using hcs) hlater
      exact ⟨f, List.mem_cons_of_mem _ hf, hanswers⟩
    · push Not at hlater
      obtain ⟨f, hf, hrecent, hid⟩ := hrecords
      obtain rfl : f = e := (List.mem_cons.mp hf).resolve_right fun h => hlater f h hrecent hid
      refine ⟨f, List.mem_cons_self, (answers_iff hfresh hcs).mpr ⟨hrecent, hid, fun hkind => ?_⟩⟩
      have hids : id ∈ toolCallIds f := by
        rcases hid with ⟨-, hids⟩ | ⟨hanswered, -⟩
        · exact hids
        · simp [kind_of_answered hanswered] at hkind
      by_contra hmatched
      push Not at hmatched
      have hbehind := (suffix_recent hfresh hsuffix hcs hrecent).subset
      refine hspelled (Or.inl ⟨a, f, b, hcs, hrecent,
        ⟨hkind, Or.inr ⟨hrecent, List.ne_nil_of_mem hids⟩⟩, id, ?_, fun g hg => ?_, fun _ => ?_⟩)
      · rwa [statedIds_of_mem hkind hids]
      · exact hlater g hg (hbehind (List.mem_cons_of_mem _ hg))
      · simpa using hmatched

lemma exists_answer_of_kept (hcut : ¬ CutCall io cs recent) (hspelled : ¬ Misspelled io cs recent)
    {c : EntryDraft} (hcs : cs = a ++ c :: b) (hkept : Kept io cs recent c)
    (hid : id ∈ statedIds c) : ∃ e ∈ c :: b, answers io cs recent id e = true := by
  by_contra hnone
  have hneeded := (needed_iff hfresh hsuffix).mpr hkept
  have hunrecorded : ∀ e ∈ c :: b, e ∈ recent → ¬ Records io cs id e := fun e he hrecent hrecords =>
    hnone (exists_answer hfresh hsuffix hspelled hcs ⟨e, he, hrecent, hrecords⟩)
  by_cases hc : c ∈ recent
  · have hbehind := (suffix_recent hfresh hsuffix hcs hc).subset
    refine hspelled (Or.inl ⟨a, c, b, hcs, hc, hneeded, id, hid, fun e he => ?_, fun hids => ?_⟩)
    · exact hunrecorded e (List.mem_cons_of_mem _ he) (hbehind (List.mem_cons_of_mem _ he))
    · exact absurd (Or.inl ⟨hkept.1, hids⟩) (hunrecorded c List.mem_cons_self hc)
  · refine hcut ⟨c, hneeded, hc, id, hid, fun e he => hunrecorded e ?_ he⟩
    exact List.mem_cons_of_mem _ ((recent_suffix hsuffix hcs hc).subset he)

lemma answeredOnce (hcut : ¬ CutCall io cs recent) (hagain : ¬ RecordedAgain io cs recent)
    (hspelled : ¬ Misspelled io cs recent) : AnsweredOnce io cs recent := by
  intro a c b hcs hkept id hid
  refine le_antisymm ?_ (List.countP_pos_iff.mpr
    (exists_answer_of_kept hfresh hsuffix hcut hspelled hcs hkept hid))
  by_contra htwo
  obtain ⟨x, e, y, f, z, hsplit, he, hf⟩ := exists_two (Nat.lt_of_not_le htwo)
  have hplace : cs = (a ++ x) ++ e :: (y ++ f :: z) := by rw [hcs, hsplit, List.append_assoc]
  obtain ⟨hrecent, hrecords, hlast⟩ := (answers_iff hfresh hplace).mp he
  refine hagain ⟨a, c, b, hcs, (needed_iff hfresh hsuffix).mpr hkept, id, hid, x, e, y, f, z,
    hsplit, hrecent, hrecords, ?_, hlast⟩
  exact (records_of_answers hfresh (by simp [hplace]) hf).2

lemma asked (hspelled : ¬ Misspelled io cs recent) : Asked io cs recent := by
  intro a r b hcs hr hown id hid
  have hcall := (exists_callOf_iff hfresh (hsuffix.subset hr) (kind_of_answered hid)).mpr hown
  by_contra hnone
  refine hspelled (Or.inr ⟨a, r, b, hcs, hr, id, hid, Or.inr ⟨hid, hcall⟩, fun c hc hneeded hs => ?_⟩)
  exact hnone ⟨c, hc, (needed_iff hfresh hsuffix).mp hneeded, hs⟩

section
variable (honce : AnsweredOnce io cs recent)
include honce

lemma exists_recorded (hcs : cs = a ++ e :: b) (hneeded : Needed io cs recent e)
    (hid : id ∈ statedIds e) : ∃ f ∈ e :: b, answers io cs recent id f = true :=
  List.countP_pos_iff.mp
    (by rw [honce a e b hcs ((needed_iff hfresh hsuffix).mp hneeded) id hid]; exact Nat.one_pos)

lemma not_cutCall : ¬ CutCall io cs recent := by
  rintro ⟨c, hneeded, -, id, hid, hnone⟩
  have hc : c ∈ cs := ((needed_iff hfresh hsuffix).mp hneeded).2.elim
    (fun h => (owners_mem h).1) fun h => hsuffix.subset h.1
  obtain ⟨a, b, hcs⟩ := List.append_of_mem hc
  obtain ⟨e, he, hanswers⟩ := exists_recorded hfresh hsuffix honce hcs hneeded hid
  obtain ⟨hrecent, hrecords⟩ := records_of_answers hfresh (by simp_all) hanswers
  exact hnone e hrecent hrecords

lemma not_recordedAgain : ¬ RecordedAgain io cs recent := by
  rintro ⟨a, c, b, hcs, hneeded, id, hid, x, e, y, f, z, hsplit, hrecent, he, hf, hlast⟩
  have hplace : cs = (a ++ x) ++ e :: (y ++ f :: z) := by rw [hcs, hsplit, List.append_assoc]
  have hplace' : cs = (a ++ x ++ e :: y) ++ f :: z := by simp [hplace]
  have hfrecent : f ∈ recent :=
    (suffix_recent hfresh hsuffix hplace hrecent).subset (by simp)
  have hanswers := (answers_iff hfresh hplace).mpr ⟨hrecent, he, hlast⟩
  -- a call behind it has its own answer behind both
  have hbehind : ∃ g ∈ f :: z, answers io cs recent id g = true := by
    rcases hf with ⟨hkind, hids⟩ | ⟨hnamed, hcall⟩
    · refine exists_recorded hfresh hsuffix honce hplace'
        ⟨hkind, Or.inr ⟨hfrecent, List.ne_nil_of_mem hids⟩⟩ ?_
      rwa [statedIds_of_mem hkind hids]
    · refine ⟨f, List.mem_cons_self, (answers_iff hfresh hplace').mpr
        ⟨hfrecent, Or.inr ⟨hnamed, hcall⟩, fun hkind => ?_⟩⟩
      simp [kind_of_answered hnamed] at hkind
  have hpos : 0 < (f :: z).countP (answers io cs recent id) := List.countP_pos_iff.mpr hbehind
  have hone := honce a c b hcs ((needed_iff hfresh hsuffix).mp hneeded) id hid
  rw [hsplit, List.countP_append, List.countP_cons_of_pos hanswers, List.countP_append] at hone
  omega

lemma not_misspelled (hasked : Asked io cs recent) : ¬ Misspelled io cs recent := by
  rintro (⟨a, c, b, hcs, hc, hneeded, id, hid, hnone, hlisted⟩ |
    ⟨a, r, b, hcs, hr, id, hid, ⟨hkind, -⟩ | ⟨-, hcall⟩, hnone⟩)
  · obtain ⟨e, he, hanswers⟩ := exists_recorded hfresh hsuffix honce hcs hneeded hid
    rcases List.mem_cons.mp he with rfl | he
    · obtain ⟨-, ⟨-, hids⟩ | ⟨hnamed, -⟩, hlast⟩ := (answers_iff hfresh hcs).mp hanswers
      · obtain ⟨r, hr, hmatched⟩ := hlisted hids
        rw [hlast hneeded.1 r hr] at hmatched
        cases hmatched
      · simp [answeredId_call hneeded.1] at hnamed
    · exact hnone e he (records_of_answers hfresh (by simp [hcs, he]) hanswers).2
  · simp [answeredId_call hkind] at hid
  · have hown := (exists_callOf_iff hfresh (hsuffix.subset hr) (kind_of_answered hid)).mp hcall
    obtain ⟨c, hc, hkept, hstated⟩ := hasked a r b hcs hr hown id hid
    exact hnone c hc ((needed_iff hfresh hsuffix).mpr hkept) hstated

end

/-- The messages of the newest candidates are closed unless a call is cut off from its results, an
id is recorded again or an id is spelled in two ways. -/
theorem toolClosed_iff : ToolClosed ((cs.flatMap (shown io cs recent)).map (messageFor io)) ↔
    ¬ CutCall io cs recent ∧ ¬ RecordedAgain io cs recent ∧ ¬ Misspelled io cs recent := by
  rw [toolClosed_iff_shown hfresh]
  constructor
  · rintro ⟨honce, hasked⟩
    exact ⟨not_cutCall hfresh hsuffix honce, not_recordedAgain hfresh hsuffix honce,
      not_misspelled hfresh hsuffix honce hasked⟩
  · rintro ⟨hcut, hagain, hspelled⟩
    exact ⟨answeredOnce hfresh hsuffix hcut hagain hspelled, asked hfresh hsuffix hspelled⟩

end

/-! ### The window -/

variable {counter : List Fields → Nat} {tokenBudget : Int}

/-- The longest run of newest candidates whose every tail fits the budget, each tail counted as the
selection counts it: its oldest entry first, then the others from the newest one on. -/
structure RecentWindow (io : Host) (counter : List Fields → Nat) (tokenBudget : Int)
    (cs recent : List EntryDraft) : Prop where
  suffix : recent <:+ cs
  fits : ∀ e tail, e :: tail <:+ recent →
    ∃ n : Nat, countMessages io counter cs (e :: tail.reverse) = .ok n ∧ (n : Int) ≤ tokenBudget
  next : ∀ e, e :: recent <:+ cs → ∀ n : Nat,
    countMessages io counter cs (e :: recent.reverse) = .ok n → tokenBudget < n

/-- There is one such run at most. -/
lemma RecentWindow.unique {recent' : List EntryDraft}
    (h : RecentWindow io counter tokenBudget cs recent)
    (h' : RecentWindow io counter tokenBudget cs recent') : recent = recent' := by
  have key : ∀ {r r' : List EntryDraft}, RecentWindow io counter tokenBudget cs r →
      RecentWindow io counter tokenBudget cs r' → r <:+ r' → r = r' := by
    rintro r r' hr hr' ⟨older, hsplit⟩
    rcases List.eq_nil_or_concat older with rfl | ⟨older, e, rfl⟩
    · exact hsplit
    · have htail : e :: r <:+ r' := ⟨older, by rw [← hsplit]; simp⟩
      obtain ⟨n, hn, hle⟩ := hr'.fits e r htail
      have := hr.next e (htail.trans hr'.suffix) n hn
      omega
  rcases List.suffix_or_suffix_of_suffix h.suffix h'.suffix with hs | hs
  · exact key h h' hs
  · exact (key h' h hs).symm

lemma fitText_eq_some {fits : EntryDraft → Bool} {e t : EntryDraft} {text : List Char}
    {rounds low high : Nat} {best : Option EntryDraft}
    (hbest : ∀ b, best = some b → fits b = true ∧ ∃ s, b = withText e s)
    (h : fitText fits e text rounds low high best = some t) :
    fits t = true ∧ ∃ s, t = withText e s := by
  induction rounds generalizing low high best with
  | zero => exact hbest t h
  | succ rounds ih =>
    unfold fitText at h
    split at h
    · dsimp only at h
      split at h
      · rename_i hfits
        refine ih (fun b hb => ?_) h
        obtain rfl := Option.some.inj hb
        exact ⟨hfits, _, rfl⟩
      · exact ih hbest h
    · exact hbest t h

/-- The selection stops at the window, or with the prefix of a newest text that is too long. -/
lemma selectNewest_cases {newest rest selected : List EntryDraft}
    (h : selectNewest io counter tokenBudget cs rest selected = .ok newest)
    (hcs : cs = rest.reverse ++ selected.reverse)
    (hfits : ∀ e tail, e :: tail <:+ selected.reverse → ∃ n : Nat,
      countMessages io counter cs (e :: tail.reverse) = .ok n ∧ (n : Int) ≤ tokenBudget) :
    (∃ recent, RecentWindow io counter tokenBudget cs recent ∧ newest = recent.reverse) ∨
    (RecentWindow io counter tokenBudget cs [] ∧ ∃ e ∈ cs,
      (e.kind = "user_message" ∨ e.kind = "assistant_message") ∧ ∃ s, newest = [withText e s] ∧
      (tokenCount counter [messageFor io (withText e s)] : Int) ≤ tokenBudget) := by
  induction rest generalizing selected with
  | nil =>
    obtain rfl := Except.ok.inj h
    rw [List.reverse_nil, List.nil_append] at hcs
    refine Or.inl ⟨selected.reverse, ⟨⟨[], hcs.symm⟩, hfits, ?_⟩, by simp⟩
    intro e hsuffix
    have := hsuffix.length_le
    rw [hcs] at this
    simp only [List.length_cons, List.length_reverse] at this
    omega
  | cons e rest ih =>
    obtain ⟨cost, hcost, hselect⟩ := except_bind_eq_ok.mp h
    have hcs' : cs = rest.reverse ++ e :: selected.reverse := by simpa using hcs
    have hwindow (hover : tokenBudget < cost) :
        RecentWindow io counter tokenBudget cs selected.reverse := by
      refine ⟨⟨(e :: rest).reverse, hcs.symm⟩, hfits, fun f hf n hn => ?_⟩
      have hsame : f :: selected.reverse = e :: selected.reverse := by
        have he : e :: selected.reverse <:+ cs := ⟨rest.reverse, hcs'.symm⟩
        exact (List.suffix_of_suffix_length_le hf he (by simp)).eq_of_length (by simp)
      obtain ⟨rfl, -⟩ := List.cons.inj hsame
      rw [List.reverse_reverse, hcost] at hn
      rw [← Except.ok.inj hn]
      exact hover
    split at hselect
    · rename_i hover
      split at hselect
      · rename_i hkind
        obtain ⟨rfl, hkind⟩ := hkind
        obtain rfl := Except.ok.inj hselect
        cases hfit : fitTextEntry io counter tokenBudget e with
        | none => exact Or.inl ⟨[], hwindow hover, rfl⟩
        | some t =>
          obtain ⟨hfits', s, rfl⟩ := fitText_eq_some (by simp) hfit
          exact Or.inr ⟨hwindow hover, e, by simp [hcs'], hkind, s, rfl, by simpa using hfits'⟩
      · obtain rfl := Except.ok.inj hselect
        exact Or.inl ⟨_, hwindow hover, by simp⟩
    · rename_i hunder
      refine ih hselect (by simpa using hcs') fun f tail htail => ?_
      rw [List.reverse_append, List.reverse_singleton, List.singleton_append,
        List.suffix_cons_iff] at htail
      rcases htail with heq | htail
      · obtain ⟨rfl, rfl⟩ := List.cons.inj heq
        rw [List.reverse_reverse]
        exact ⟨cost, hcost, by omega⟩
      · exact hfits f tail htail

/-! ### Built contexts -/

/-- A shortened text stays alone. -/
lemma restoreToolPairs_text {e : EntryDraft} {restored : List EntryDraft}
    (hkind : e.kind = "user_message" ∨ e.kind = "assistant_message")
    (h : restoreToolPairs io [e] cs = .ok restored) : restored = [e] := by
  have hcall : e.kind ≠ "tool_call" := by rcases hkind with h | h <;> simp [h]
  have hresult : e.kind ≠ "tool_result" := by rcases hkind with h | h <;> simp [h]
  obtain ⟨st, hcalls, h⟩ := except_bind_eq_ok.mp h
  obtain rfl : {} = st := by simpa [foldE, answerCalls, hcall, except_bind_eq_ok] using hcalls
  obtain ⟨st, hresults, h⟩ := except_bind_eq_ok.mp h
  obtain rfl : {} = st := by simpa [foldE, pairResult, hresult, except_bind_eq_ok] using hresults
  obtain ⟨keyed, hkeyed, rfl⟩ := except_last_eq_ok.mp h
  have hnone : unpaired [e] {} = [] := by simp [unpaired, hcall, hresult]
  rw [hnone] at hkeyed
  simp only [List.append_nil, List.contains_nil, Bool.not_false, List.filter_true,
    List.mapM_cons, List.mapM_nil] at hkeyed
  obtain ⟨p, hp, hkeyed⟩ := except_bind_eq_ok.mp hkeyed
  obtain ⟨key, -, rfl⟩ := except_last_eq_ok.mp hp
  obtain rfl := Except.ok.inj hkeyed
  rfl

lemma flatMap_shown_nil : cs.flatMap (shown io cs []) = [] := by
  simp [shown, owners]

lemma shrink_of_fits {rounds : Nat} {selected : List EntryDraft}
    (h : selected = [] ∨ (tokenCount counter (selected.map (messageFor io)) : Int) ≤ tokenBudget) :
    shrink io counter tokenBudget cs rounds selected = .ok (some selected) := by
  unfold shrink
  rw [if_pos h]

/-- A context that is built holds the messages of the window, or one shortened text. It takes no
round of the shrinking loop. -/
theorem buildContext_messages {entries : List EntryDraft} {rounds : Nat}
    {snapshot? : Option ContextSnapshot} (hcs : contextCandidates io entries = .ok cs)
    (hfresh : FreshIds cs)
    (h : buildContext io counter tokenBudget rounds entries = .ok snapshot?) :
    ∃ snapshot recent, snapshot? = some snapshot ∧
      RecentWindow io counter tokenBudget cs recent ∧
      (snapshot.messages = (cs.flatMap (shown io cs recent)).map (messageFor io) ∨
        recent = [] ∧ ∃ e s, (e.kind = "user_message" ∨ e.kind = "assistant_message") ∧
          snapshot.messages = [messageFor io (withText e s)]) := by
  obtain ⟨-, h⟩ := except_seq_eq_ok.mp h
  obtain ⟨cs', hcs', h⟩ := except_bind_eq_ok.mp h
  obtain rfl := Except.ok.inj (hcs.symm.trans hcs')
  obtain ⟨newest, hnewest, h⟩ := except_bind_eq_ok.mp h
  obtain ⟨selected, hselected, h⟩ := except_bind_eq_ok.mp h
  obtain ⟨shrunk, hshrunk, h⟩ := except_bind_eq_ok.mp h
  rcases selectNewest_cases hnewest (by simp) (by simp) with
    ⟨recent, hrecent, rfl⟩ | ⟨hrecent, e, -, hkind, s, rfl, hfits⟩
  · rw [List.reverse_reverse] at hselected
    have hrestored := restoreToolPairs_eq ⟨hfresh, hrecent.suffix, .refl _⟩ hselected
    have hfits : selected = [] ∨
        (tokenCount counter (selected.map (messageFor io)) : Int) ≤ tokenBudget := by
      cases recent with
      | nil => exact Or.inl (hrestored.trans flatMap_shown_nil)
      | cons e tail =>
        obtain ⟨n, hn, hle⟩ := hrecent.fits e tail List.suffix_rfl
        obtain ⟨restored, hrestore, hn⟩ := except_bind_eq_ok.mp hn
        have hsame := restoreToolPairs_eq
          ⟨hfresh, hrecent.suffix, (List.reverse_perm tail).cons e⟩ hrestore
        obtain rfl := Except.ok.inj hn
        rw [hsame, ← hrestored] at hle
        exact Or.inr hle
    rw [shrink_of_fits hfits] at hshrunk
    obtain rfl := Except.ok.inj hshrunk
    obtain rfl := Except.ok.inj h
    exact ⟨_, recent, rfl, hrecent, Or.inl (by simp [hrestored])⟩
  · obtain rfl := restoreToolPairs_text (by simpa [withText] using hkind) hselected
    rw [shrink_of_fits (Or.inr (by simpa using hfits))] at hshrunk
    obtain rfl := Except.ok.inj hshrunk
    obtain rfl := Except.ok.inj h
    exact ⟨_, [], rfl, hrecent, Or.inr ⟨rfl, e, s, hkind, by simp⟩⟩

lemma toolClosed_nil : ToolClosed [] := by
  intro earlier message later h
  simp at h

lemma toolClosed_text {e : EntryDraft} {s : String}
    (hkind : e.kind = "user_message" ∨ e.kind = "assistant_message") :
    ToolClosed [messageFor io (withText e s)] := by
  have hcalls : statedIds (withText e s) = [] := by
    rcases hkind with h | h <;> simp [statedIds, withText, h]
  have hresult : answeredId (withText e s) = none := by
    rcases hkind with h | h <;> simp [answeredId, withText, h]
  intro earlier message later h
  obtain rfl : message = messageFor io (withText e s) := by
    have : message ∈ [messageFor io (withText e s)] := by rw [h]; simp
    simpa using this
  rw [callIdsOf_messageFor, resultIdOf_messageFor, hcalls, hresult]
  simp

end Context

open Context in
/-- The context that `build_context` returns is closed exactly when the budget cuts no call off from
its results, no id of a call is recorded again and none is spelled in two ways. -/
theorem provider_context {io : Host} {counter : List Fields → Nat} {tokenBudget : Int}
    {rounds : Nat} {entries cs recent : List EntryDraft} {snapshot : ContextSnapshot}
    (hcs : contextCandidates io entries = .ok cs) (hfresh : FreshIds cs)
    (hrecent : RecentWindow io counter tokenBudget cs recent)
    (hbuild : buildContext io counter tokenBudget rounds entries = .ok (some snapshot)) :
    ToolClosed snapshot.messages ↔
      ¬ CutCall io cs recent ∧ ¬ RecordedAgain io cs recent ∧ ¬ Misspelled io cs recent := by
  obtain ⟨snapshot', recent', hsome, hrecent', hmessages⟩ := buildContext_messages hcs hfresh hbuild
  obtain rfl := Option.some.inj hsome
  obtain rfl := hrecent.unique hrecent'
  rw [← toolClosed_iff hfresh hrecent.suffix]
  rcases hmessages with heq | ⟨rfl, e, s, hkind, heq⟩
  · rw [heq]
  · rw [heq, flatMap_shown_nil]
    exact iff_of_true (toolClosed_text hkind) toolClosed_nil

/-- A printer that the samples do not look at. -/
def silentHost : Host := ⟨fun _ => "", fun _ => "", fun _ => "", fun _ => ""⟩

/-- A call with two ids, and its results. -/
def sampleCalls : List EntryDraft :=
  [{ entryId := "call", conversationId := "chat", parentId := none, kind := "tool_call"
     payload := [("tool_calls", .arr [.obj [("id", .str "a")], .obj [("id", .str "b")]])] },
    { entryId := "result-a", conversationId := "chat", parentId := some "call"
      kind := "tool_result", payload := [("call_id", .str "a")] },
    { entryId := "result-b", conversationId := "chat", parentId := some "result-a"
      kind := "tool_result", payload := [("call_id", .str "b")] }]

lemma sampleCalls_fresh : Context.FreshIds sampleCalls :=
  ⟨by decide, by decide +kernel, by decide +kernel⟩

open Context in
lemma sampleCalls_closed : ToolClosed (sampleCalls.map (messageFor silentHost)) := by
  have hcalls : sampleCalls.map (fun e => callIdsOf (messageFor silentHost e)) =
      [["a", "b"], [], []] := by decide +kernel
  have hresults : sampleCalls.map (fun e => resultIdOf (messageFor silentHost e)) =
      [none, some "a", some "b"] := by decide +kernel
  simp only [sampleCalls, List.map_cons, List.map_nil, List.cons.injEq, and_true] at hcalls hresults
  rintro (_ | ⟨a, _ | ⟨b, _ | ⟨c, earlier⟩⟩⟩) message later h <;>
    simp only [sampleCalls, List.map_cons, List.map_nil, List.nil_append, List.cons_append,
      List.cons.injEq] at h
  · obtain ⟨rfl, rfl⟩ := h
    simp [hcalls, hresults]
  · obtain ⟨rfl, rfl, rfl⟩ := h
    simp [hcalls, hresults]
  · obtain ⟨rfl, rfl, rfl, rfl⟩ := h
    simp [hcalls, hresults]
  · simp at h

open Context in
/-- A budget of three messages keeps the call and both results. Nothing is cut off, recorded again
or misspelled, and the context is closed. -/
theorem provider_context_sample : ∃ snapshot recent,
    buildContext silentHost List.length 3 0 sampleCalls = .ok (some snapshot) ∧
    snapshot.entryIds = ["call", "result-a", "result-b"] ∧ ToolClosed snapshot.messages ∧
    ¬ CutCall silentHost sampleCalls recent ∧ ¬ RecordedAgain silentHost sampleCalls recent ∧
    ¬ Misspelled silentHost sampleCalls recent := by
  have hcs : contextCandidates silentHost sampleCalls = .ok sampleCalls := by decide +kernel
  have hshown : (buildContext silentHost List.length 3 0 sampleCalls).toOption.join.map
      (fun snapshot => (snapshot.entryIds, snapshot.messages)) =
      some (["call", "result-a", "result-b"], sampleCalls.map (messageFor silentHost)) := by
    decide +kernel
  cases hbuild : buildContext silentHost List.length 3 0 sampleCalls with
  | error e =>
    rw [hbuild] at hshown
    cases hshown
  | ok snapshot? =>
    obtain ⟨snapshot, recent, rfl, hrecent, -⟩ := buildContext_messages hcs sampleCalls_fresh hbuild
    rw [hbuild] at hshown
    obtain ⟨hids, hmessages⟩ := Prod.mk.inj (Option.some.inj hshown)
    have hclosed : ToolClosed snapshot.messages := by
      rw [hmessages]
      exact sampleCalls_closed
    exact ⟨snapshot, recent, rfl, hids, hclosed,
      (provider_context hcs sampleCalls_fresh hrecent hbuild).mp hclosed⟩

open Context in
/-- A budget of two messages keeps the call and one of its two results. -/
theorem provider_context_unconditional :
    ¬ ∀ (io : Host) (counter : List Fields → Nat) (tokenBudget : Int) (rounds : Nat)
      (entries cs : List EntryDraft) (snapshot : ContextSnapshot), 0 < tokenBudget →
      contextCandidates io entries = .ok cs → FreshIds cs →
      buildContext io counter tokenBudget rounds entries = .ok (some snapshot) →
      ToolClosed snapshot.messages := by
  intro h
  have hmessages : (buildContext silentHost List.length 2 0 sampleCalls).toOption.join.map
      (fun snapshot => (snapshot.messages.map callIdsOf, snapshot.messages.map resultIdOf)) =
      some ([["a", "b"], []], [none, some "b"]) := by decide +kernel
  cases hbuild : buildContext silentHost List.length 2 0 sampleCalls with
  | error e =>
    rw [hbuild] at hmessages
    cases hmessages
  | ok snapshot? =>
    rw [hbuild] at hmessages
    cases snapshot? with
    | none => cases hmessages
    | some snapshot =>
      obtain ⟨hcalls, hresults⟩ := Prod.mk.inj (Option.some.inj hmessages)
      obtain ⟨call, later, hsplit, hcall, hlater⟩ := List.map_eq_cons_iff.mp hcalls
      obtain ⟨result, rest, rfl, hresult, hrest⟩ := List.map_eq_cons_iff.mp hlater
      obtain rfl := List.map_eq_nil_iff.mp hrest
      have hclosed := h silentHost List.length 2 0 sampleCalls sampleCalls snapshot (by decide)
        (by decide +kernel) sampleCalls_fresh hbuild
      have hone := (hclosed [] call [result] hsplit).1 "a" (by simp [hcall])
      rw [hsplit] at hresults
      simp only [List.map_cons, List.map_nil, List.cons.injEq, and_true] at hresults
      simp [hresults.2] at hone

end Codey
