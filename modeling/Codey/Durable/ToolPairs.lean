import Codey.Durable.Context
import Codey.Lib.Lists
import Mathlib.Data.List.Induction

/-!
# Tool pairs

What `_restore_tool_pairs` makes of the newest candidates of a path. The calls of the selected
results join them, every selected call id without a committed result gets a missing one, and what
has no partner goes.
-/

namespace Codey

namespace Context

variable (io : Host) (cs recent : List EntryDraft)

/-- The call of the path that a result answers. -/
def ownCall (e : EntryDraft) : Option EntryDraft :=
  (position? cs e.entryId).bind fun n => (findCall io e (cs.take n).reverse).toOption.join

/-- The committed result of a call id. -/
def resultOf (e : EntryDraft) (id : String) : Option EntryDraft :=
  (position? cs e.entryId).bind fun n => findToolResult io cs n id

def openIds (e : EntryDraft) : List String :=
  if e.kind = "tool_call" then
    ((toolCallIds e).filter fun id => (resultOf io cs e id).isNone).eraseDups
  else []

def missing (e : EntryDraft) : List EntryDraft := (openIds io cs e).map (missingResult io e)

def owners (selected : List EntryDraft) : List EntryDraft :=
  selected.filterMap fun e => if e.kind = "tool_result" then ownCall io cs e else none

/-- A selected entry has a partner or needs none. -/
def survives (e : EntryDraft) : Bool :=
  if e.kind = "tool_call" then toolCallIds e ≠ [] || (owners io cs recent).contains e
  else if e.kind = "tool_result" then (ownCall io cs e).isSome
  else true

/-- What a candidate contributes. -/
def shown (e : EntryDraft) : List EntryDraft :=
  if e ∈ recent then if survives io cs recent e then e :: missing io cs e else []
  else if e ∈ owners io cs recent then [e] else []

/-- No two candidates share an id, and no missing result takes the id of another entry. -/
structure FreshIds : Prop where
  entries : (cs.map (·.entryId)).Nodup
  missing : ∀ c ∈ cs, c.kind = "tool_call" → ∀ id ∈ toolCallIds c,
    missingId c id ∉ cs.map (·.entryId)
  calls : ∀ c ∈ cs, c.kind = "tool_call" → ∀ id ∈ toolCallIds c, ∀ d ∈ cs, d.kind = "tool_call" →
    ∀ id' ∈ toolCallIds d, missingId c id = missingId d id' → c = d

/-! ### Places -/

variable {io cs recent}

variable {id : String}

lemma position?_eq_none : position? cs id = none ↔ id ∉ cs.map (·.entryId) := by
  induction cs with
  | nil => simp [position?]
  | cons e cs ih =>
    unfold position?
    cases h : position? cs id with
    | some n =>
      have := mt ih.mpr (by simp [h])
      simp_all
    | none =>
      have := ih.mp h
      by_cases he : e.entryId = id
      · simp [he]
      · simp_all [eq_comm]

/-- A place that is found holds an entry of the id. -/
lemma position?_spec {n : Nat} (h : position? cs id = some n) :
    ∃ e, cs[n]? = some e ∧ e.entryId = id := by
  induction cs generalizing n with
  | nil => cases h
  | cons e cs ih =>
    rw [position?] at h
    cases hrest : position? cs id with
    | some m =>
      rw [hrest] at h
      obtain rfl := Option.some.inj h
      exact ih hrest
    | none =>
      rw [hrest] at h
      dsimp only at h
      split_ifs at h with hid
      obtain rfl := Option.some.inj h
      exact ⟨e, rfl, hid⟩

lemma position?_of_nodup {a b : List EntryDraft} {e : EntryDraft}
    (h : ((a ++ e :: b).map (·.entryId)).Nodup) :
    position? (a ++ e :: b) e.entryId = some a.length := by
  induction a with
  | nil =>
    have hb : position? b e.entryId = none :=
      position?_eq_none.mpr (List.nodup_cons.mp h).1
    simp [position?, hb]
  | cons f a ih =>
    have := ih (List.nodup_cons.mp h).2
    simp [position?, this]

namespace FreshIds

lemma nodup (h : FreshIds cs) : cs.Nodup := List.Nodup.of_map _ h.entries

lemma inj (h : FreshIds cs) {e f : EntryDraft} (he : e ∈ cs) (hf : f ∈ cs)
    (hid : e.entryId = f.entryId) : e = f :=
  List.inj_on_of_nodup_map h.entries he hf hid

variable {a b : List EntryDraft}

lemma position? (h : FreshIds cs) {e : EntryDraft} (hcs : cs = a ++ e :: b) :
    position? cs e.entryId = some a.length := by
  subst hcs
  exact position?_of_nodup h.entries

lemma ownCall (io : Host) (h : FreshIds cs) {e : EntryDraft} (hcs : cs = a ++ e :: b) :
    ownCall io cs e = (findCall io e a.reverse).toOption.join := by
  rw [Context.ownCall, h.position? hcs, Option.bind_some, hcs]
  simp

lemma resultOf (io : Host) (h : FreshIds cs) {e : EntryDraft} (hcs : cs = a ++ e :: b)
    (id : String) : resultOf io cs e id = b.find? fun f =>
      f.kind = "tool_result" && io.member f.payload "call_id" = id := by
  rw [Context.resultOf, h.position? hcs, Option.bind_some, findToolResult, hcs]
  simp [← List.drop_drop]

end FreshIds

lemma findCall_eq_some {e c : EntryDraft} {l : List EntryDraft} :
    findCall io e l = .ok (some c) ↔ ∃ b a, l = b ++ c :: a ∧ c.kind = "tool_call" ∧
      (∃ ids, printedIds io c = .ok ids ∧ answersIds io e ids = true) ∧
      ∀ p ∈ b, p.kind = "tool_call" → ∃ ids, printedIds io p = .ok ids ∧
        answersIds io e ids = false := by
  constructor
  · intro h
    induction l with
    | nil => cases h
    | cons p l ih =>
      unfold findCall at h
      split at h
      · rename_i hkind
        obtain ⟨ids, hids, h⟩ := except_bind_eq_ok.mp h
        split at h
        · rename_i hanswers
          obtain rfl := Option.some.inj (Except.ok.inj h)
          exact ⟨[], l, rfl, hkind, ⟨ids, hids, hanswers⟩, by simp⟩
        · rename_i hnot
          obtain ⟨b, a, rfl, hc, hasks, hb⟩ := ih h
          refine ⟨p :: b, a, rfl, hc, hasks, List.forall_mem_cons.mpr ⟨fun _ => ?_, hb⟩⟩
          exact ⟨ids, hids, by simpa using hnot⟩
      · rename_i hkind
        obtain ⟨b, a, rfl, hc, hasks, hb⟩ := ih h
        exact ⟨p :: b, a, rfl, hc, hasks, List.forall_mem_cons.mpr ⟨fun h => absurd h hkind, hb⟩⟩
  · rintro ⟨b, a, rfl, hkind, ⟨ids, hids, hanswers⟩, hb⟩
    induction b with
    | nil => simp [findCall, hkind, hids, hanswers, bind, Except.bind, pure, Except.pure]
    | cons p b ih =>
      obtain ⟨hp, hb⟩ := List.forall_mem_cons.mp hb
      have hrest := ih hb
      by_cases hcall : p.kind = "tool_call"
      · obtain ⟨ids', hids', hnot⟩ := hp hcall
        simpa [findCall, hcall, hids', hnot, bind, Except.bind] using hrest
      · simpa [findCall, hcall] using hrest

lemma findCall_mem {e c : EntryDraft} {l : List EntryDraft}
    (h : findCall io e l = .ok (some c)) : c ∈ l ∧ c.kind = "tool_call" := by
  obtain ⟨b, a, rfl, hkind, -⟩ := findCall_eq_some.mp h
  exact ⟨by simp, hkind⟩

lemma ownCall_mem {e c : EntryDraft} (h : ownCall io cs e = some c) :
    c ∈ cs ∧ c.kind = "tool_call" := by
  obtain ⟨n, -, h⟩ := Option.bind_eq_some_iff.mp h
  cases hfind : findCall io e (cs.take n).reverse with
  | error err => simp [hfind, Except.toOption] at h
  | ok found =>
    obtain rfl : found = some c := by simpa [hfind, Except.toOption] using h
    obtain ⟨hmem, hkind⟩ := findCall_mem hfind
    exact ⟨List.mem_of_mem_take (List.mem_reverse.mp hmem), hkind⟩

variable {selected : List EntryDraft}

lemma mem_owners {c : EntryDraft} :
    c ∈ owners io cs selected ↔
      ∃ e ∈ selected, e.kind = "tool_result" ∧ ownCall io cs e = some c := by
  rw [owners, List.mem_filterMap]
  refine exists_congr fun e => and_congr_right fun _ => ?_
  split <;> simp_all

lemma owners_mem {c : EntryDraft} (h : c ∈ owners io cs selected) :
    c ∈ cs ∧ c.kind = "tool_call" := by
  obtain ⟨e, -, -, hown⟩ := mem_owners.mp h
  exact ownCall_mem hown

@[simp] lemma missingResult_entryId (e : EntryDraft) (id : String) :
    (missingResult io e id).entryId = missingId e id := rfl

@[simp] lemma missingResult_kind (e : EntryDraft) (id : String) :
    (missingResult io e id).kind = "tool_result" := rfl

lemma missingId_inj {e : EntryDraft} {id id' : String} (h : missingId e id = missingId e id') :
    id = id' := by
  have := congrArg String.toList h
  exact String.toList_inj.mp (by simpa [missingId] using this)

lemma mem_openIds {e : EntryDraft} : id ∈ openIds io cs e ↔
    e.kind = "tool_call" ∧ id ∈ toolCallIds e ∧ resultOf io cs e id = none := by
  unfold openIds
  split <;> simp_all

lemma mem_missing {e f : EntryDraft} : f ∈ missing io cs e ↔
    ∃ id, (e.kind = "tool_call" ∧ id ∈ toolCallIds e ∧ resultOf io cs e id = none) ∧
      f = missingResult io e id := by
  simp only [missing, List.mem_map, mem_openIds, eq_comm]

lemma FreshIds.missing_notMem (h : FreshIds cs) {e f : EntryDraft} (he : e ∈ cs)
    (hf : f ∈ Context.missing io cs e) : f.entryId ∉ cs.map (·.entryId) := by
  obtain ⟨id, ⟨hkind, hid, -⟩, rfl⟩ := mem_missing.mp hf
  exact h.missing e he hkind id hid

/-! ### Selected calls -/

variable {st : Pairing}

lemma Pairing.add_additions {e : EntryDraft} :
    (st.add selected e).additions =
      st.additions ++ (if st.known selected e.entryId then [] else [e]) := by
  unfold Pairing.add
  split <;> simp

@[simp] lemma Pairing.add_removals {e : EntryDraft} :
    (st.add selected e).removals = st.removals := by
  unfold Pairing.add
  split <;> rfl

@[simp] lemma Pairing.add_pairedCalls {e : EntryDraft} :
    (st.add selected e).pairedCalls = st.pairedCalls := by
  unfold Pairing.add
  split <;> rfl

@[simp] lemma Pairing.add_pairedResults {e : EntryDraft} :
    (st.add selected e).pairedResults = st.pairedResults := by
  unfold Pairing.add
  split <;> rfl

lemma Pairing.known_iff :
    st.known selected id = true ↔
      (∃ e ∈ selected, e.entryId = id) ∨ ∃ e ∈ st.additions, e.entryId = id := by
  simp [Pairing.known]

lemma eraseDups_snoc {α : Type} [BEq α] [LawfulBEq α] (l : List α) (a : α) :
    (l ++ [a]).eraseDups = l.eraseDups ++ (if l.contains a then [] else [a]) := by
  rw [List.eraseDups_append]
  congr 1
  by_cases h : a ∈ l <;> simp [List.removeAll, h, List.eraseDups_cons]

lemma nodup_eraseDups {α : Type} [BEq α] [LawfulBEq α] (l : List α) : l.eraseDups.Nodup := by
  induction l using List.reverseRecOn with
  | nil => simp
  | append_singleton l a ih =>
    rw [eraseDups_snoc, List.nodup_append]
    by_cases h : a ∈ l
    · simp [h, ih]
    · refine ⟨ih, by simp [h], fun b hb c hc => ?_⟩
      rintro rfl
      obtain rfl : b = a := by simpa [h] using hc
      exact h (List.mem_eraseDups.mp hb)

/-- The ids of one call: what has no result is added once. -/
lemma foldl_answerCall {e : EntryDraft} {n : Nat} {ids : List String}
    (hresult : ∀ id ∈ ids, ∀ r, findToolResult io cs n id = some r → r ∈ selected)
    (hnew : ∀ id ∈ ids, st.known selected (missingId e id) = false) :
    (ids.foldl (answerCall io selected cs e n) st).additions = st.additions ++
      ((ids.filter fun id => (findToolResult io cs n id).isNone).eraseDups.map
        (missingResult io e)) ∧
    (ids.foldl (answerCall io selected cs e n) st).removals = st.removals ∧
    ∀ x, x ∈ (ids.foldl (answerCall io selected cs e n) st).pairedCalls ↔
      x ∈ st.pairedCalls ∨ (ids ≠ [] ∧ x = e.entryId) := by
  induction ids using List.reverseRecOn with
  | nil => simp
  | append_singleton ids id ih =>
    obtain ⟨hadd, hrem, hpair⟩ := ih (fun i hi => hresult i (by simp [hi]))
      (fun i hi => hnew i (by simp [hi]))
    rw [List.foldl_append, List.foldl_cons, List.foldl_nil]
    generalize ids.foldl (answerCall io selected cs e n) st = st₁ at hadd hrem hpair
    refine ⟨?_, ?_, fun x => ?_⟩
    · rw [answerCall, Pairing.add_additions, List.filter_append]
      cases hfind : findToolResult io cs n id with
      | some r =>
        have hr := hresult id (by simp) r hfind
        have hknown : (st₁.pair e.entryId r.entryId).known selected r.entryId = true :=
          Pairing.known_iff.mpr (Or.inl ⟨r, hr, rfl⟩)
        simp only [Option.getD_some, hknown, if_true, List.append_nil]
        rw [Pairing.pair, hadd]
        simp [hfind]
      | none =>
        have hold := mt Pairing.known_iff.mpr (by simp [hnew id (by simp)] :
          ¬ st.known selected (missingId e id) = true)
        push Not at hold
        have hknown : (st₁.pair e.entryId (missingId e id)).known selected (missingId e id) =
            (ids.filter fun id => (findToolResult io cs n id).isNone).contains id := by
          rw [Bool.eq_iff_iff, Pairing.known_iff, List.contains_iff_mem]
          constructor
          · rintro (⟨f, hf, heq⟩ | ⟨f, hf, heq⟩)
            · exact absurd heq (hold.1 f hf)
            · rw [Pairing.pair, hadd] at hf
              rcases List.mem_append.mp hf with hf | hf
              · exact absurd heq (hold.2 f hf)
              · obtain ⟨id', hid', rfl⟩ := List.mem_map.mp hf
                obtain rfl := missingId_inj heq
                exact List.mem_eraseDups.mp hid'
          · intro hmem
            refine Or.inr ⟨missingResult io e id, ?_, rfl⟩
            rw [Pairing.pair, hadd]
            exact List.mem_append_right _
              (List.mem_map_of_mem (List.mem_eraseDups.mpr hmem))
        simp only [Option.getD_none, missingResult_entryId, hknown]
        rw [List.filter_cons, List.filter_nil, hfind, Option.isNone_none, if_pos rfl,
          eraseDups_snoc, List.map_append, Pairing.pair, hadd, List.append_assoc]
        split <;> simp
    · simp [answerCall, Pairing.pair, hrem]
    · simp only [answerCall, Pairing.pair, Pairing.add_pairedCalls, List.mem_cons, hpair]
      by_cases hx : x = e.entryId <;> simp [hx]

/-- The newest candidates, in some order. -/
structure Newest (cs recent selected : List EntryDraft) : Prop where
  fresh : FreshIds cs
  suffix : recent <:+ cs
  perm : selected.Perm recent

namespace Newest

variable {selected : List EntryDraft} {st : Pairing}

variable {e : EntryDraft}

lemma mem (h : Newest cs recent selected) (he : e ∈ selected) : e ∈ cs :=
  h.suffix.subset (h.perm.subset he)

lemma nodup (h : Newest cs recent selected) : selected.Nodup :=
  h.perm.nodup_iff.mpr (h.fresh.nodup.sublist h.suffix.sublist)

lemma result_mem (h : Newest cs recent selected) {e r : EntryDraft} {n : Nat} {id : String}
    (he : e ∈ selected) (hn : Context.position? cs e.entryId = some n)
    (hr : findToolResult io cs n id = some r) : r ∈ selected := by
  obtain ⟨before, hsplit⟩ := h.suffix
  obtain ⟨a, b, hab⟩ := List.append_of_mem (h.perm.subset he)
  have hcs : cs = (before ++ a) ++ e :: b := by rw [← hsplit, hab, List.append_assoc]
  have hfind := h.fresh.resultOf io hcs id
  rw [resultOf, hn, Option.bind_some, hr] at hfind
  refine h.perm.symm.subset ?_
  rw [hab]
  exact List.mem_append_right _ (List.mem_cons_of_mem _ (List.mem_of_find?_eq_some hfind.symm))

/-- After the first loop every open id of the selected calls has its missing result. -/
lemma answerCalls (h : Newest cs recent selected)
    (hfold : foldE selected (Context.answerCalls io selected cs) {} = .ok st) :
    st.additions = selected.flatMap (missing io cs) ∧ st.removals = [] ∧
    ∀ x, x ∈ st.pairedCalls ↔
      ∃ e ∈ selected, e.kind = "tool_call" ∧ toolCallIds e ≠ [] ∧ x = e.entryId := by
  refine foldE_prefix (fun done st => st.additions = done.flatMap (missing io cs) ∧
    st.removals = [] ∧ ∀ x, x ∈ st.pairedCalls ↔
      ∃ e ∈ done, e.kind = "tool_call" ∧ toolCallIds e ≠ [] ∧ x = e.entryId) hfold
    (by simp) ?_
  rintro done e todo hsplit st st' ⟨hadd, hrem, hpair⟩ hstep
  have he : e ∈ selected := by simp [hsplit]
  unfold Context.answerCalls at hstep
  split at hstep
  · rename_i hcall
    obtain ⟨n, hn, rfl⟩ := except_last_eq_ok.mp hstep
    have hn : Context.position? cs e.entryId = some n := by
      unfold position at hn
      split at hn
      · obtain rfl := Except.ok.inj hn
        assumption
      · cases hn
    have hnew : ∀ id ∈ toolCallIds e, st.known selected (missingId e id) = false := by
      intro id hid
      rw [Bool.eq_false_iff, ne_eq, Pairing.known_iff]
      rintro (⟨f, hf, heq⟩ | ⟨f, hf, heq⟩)
      · apply h.fresh.missing e (h.mem he) hcall.1 id hid
        rw [← heq]
        exact List.mem_map_of_mem (h.mem hf)
      · rw [hadd] at hf
        obtain ⟨d, hd, hf⟩ := List.mem_flatMap.mp hf
        obtain ⟨id', ⟨hkind, hid', -⟩, rfl⟩ := mem_missing.mp hf
        have hdsel : d ∈ selected := by simp [hsplit, hd]
        obtain rfl := h.fresh.calls d (h.mem hdsel) hkind id' hid' e (h.mem he) hcall.1 id hid heq
        have := h.nodup
        rw [hsplit] at this
        exact (List.nodup_append.mp this).2.2 d hd d (by simp) rfl
    obtain ⟨hadd', hrem', hpair'⟩ := foldl_answerCall
      (fun id _ r hr => h.result_mem he hn hr) hnew
    refine ⟨?_, by rw [hrem', hrem], fun x => ?_⟩
    · have hids : (toolCallIds e).filter (fun id => (resultOf io cs e id).isNone) =
          (toolCallIds e).filter fun id => (findToolResult io cs n id).isNone := by
        simp [resultOf, hn]
      rw [hadd', hadd, List.flatMap_append, List.flatMap_singleton, missing, openIds,
        if_pos hcall.1, hids]
    · rw [hpair', hpair]
      simp [or_and_right, exists_or, hcall]
  · rename_i hother
    obtain rfl := Except.ok.inj hstep
    have hnone : missing io cs e = [] := by
      rw [missing, openIds]
      split
      · have : toolCallIds e = [] := by simp_all
        simp [this]
      · rfl
    refine ⟨by simp [hadd, hnone], hrem, fun x => ?_⟩
    rw [hpair]
    simp only [List.mem_append, List.mem_singleton, or_and_right, exists_or]
    refine ⟨Or.inl, fun hx => hx.resolve_right ?_⟩
    rintro ⟨f, rfl, hkind, hids, -⟩
    exact hother ⟨hkind, hids⟩

/-- What the two loops have built once the second one has seen some of the results. -/
structure Paired (io : Host) (cs selected done : List EntryDraft) (st : Pairing) : Prop where
  additions : ∃ added, st.additions = selected.flatMap (missing io cs) ++ added ∧ added.Nodup ∧
    ∀ c, c ∈ added ↔ c ∈ owners io cs done ∧ c ∉ selected
  removals : ∀ x, x ∈ st.removals ↔
    ∃ e ∈ done, e.kind = "tool_result" ∧ ownCall io cs e = none ∧ x = e.entryId
  calls : ∀ x, x ∈ st.pairedCalls ↔
    (∃ e ∈ selected, e.kind = "tool_call" ∧ toolCallIds e ≠ [] ∧ x = e.entryId) ∨
      ∃ c ∈ owners io cs done, x = c.entryId
  results : ∀ e ∈ done, e.kind = "tool_result" → ownCall io cs e ≠ none →
    e.entryId ∈ st.pairedResults

lemma owners_snoc (done : List EntryDraft) (e : EntryDraft) :
    owners io cs (done ++ [e]) = owners io cs done ++
      (if e.kind = "tool_result" then ownCall io cs e else none).toList := by
  rw [owners, List.filterMap_append, List.filterMap_cons, List.filterMap_nil]
  cases hown : (if e.kind = "tool_result" then ownCall io cs e else none) <;> simp [owners]

variable {done : List EntryDraft}

lemma Paired.skip (h : Paired io cs selected done st) (hkind : e.kind ≠ "tool_result") :
    Paired io cs selected (done ++ [e]) st := by
  have howners : owners io cs (done ++ [e]) = owners io cs done := by
    simp [owners_snoc, hkind]
  refine ⟨by rw [howners]; exact h.additions, fun x => ?_, by rw [howners]; exact h.calls, ?_⟩
  · rw [h.removals]
    simp [or_and_right, exists_or, hkind]
  · intro f hf hfkind hown
    rcases List.mem_append.mp hf with hf | hf
    · exact h.results f hf hfkind hown
    · rw [List.mem_singleton.mp hf] at hfkind
      exact absurd hfkind hkind

/-- A result without a call is removed. -/
lemma Paired.remove (h : Paired io cs selected done st) (hkind : e.kind = "tool_result")
    (hown : ownCall io cs e = none) :
    Paired io cs selected (done ++ [e]) { st with removals := e.entryId :: st.removals } := by
  have howners : owners io cs (done ++ [e]) = owners io cs done := by
    simp [owners_snoc, hown]
  refine ⟨by rw [howners]; exact h.additions, fun x => ?_, by rw [howners]; exact h.calls, ?_⟩
  · rw [List.mem_cons, h.removals]
    simp [or_and_right, exists_or, hkind, hown, or_comm]
  · intro f hf hfkind hfown
    rcases List.mem_append.mp hf with hf | hf
    · exact h.results f hf hfkind hfown
    · rw [List.mem_singleton.mp hf] at hfown
      exact absurd hown hfown

/-- A result brings its call along. -/
lemma Paired.join (hn : Newest cs recent selected) {e c : EntryDraft}
    (h : Paired io cs selected done st) (hkind : e.kind = "tool_result")
    (hown : ownCall io cs e = some c) :
    Paired io cs selected (done ++ [e]) ((st.pair c.entryId e.entryId).add selected c) := by
  have howners : owners io cs (done ++ [e]) = owners io cs done ++ [c] := by
    simp [owners_snoc, hkind, hown]
  have hc := (ownCall_mem hown).1
  obtain ⟨added, hadd, hnodup, hmem⟩ := h.additions
  have hknown : (st.pair c.entryId e.entryId).known selected c.entryId = true ↔
      c ∈ selected ∨ c ∈ added := by
    rw [Pairing.known_iff, Pairing.pair, hadd]
    constructor
    · rintro (⟨f, hf, heq⟩ | ⟨f, hf, heq⟩)
      · obtain rfl := hn.fresh.inj (hn.mem hf) hc heq
        exact Or.inl hf
      · rcases List.mem_append.mp hf with hf | hf
        · obtain ⟨d, hd, hf⟩ := List.mem_flatMap.mp hf
          refine absurd ?_ (hn.fresh.missing_notMem (hn.mem hd) hf)
          rw [heq]
          exact List.mem_map_of_mem hc
        · obtain rfl := hn.fresh.inj (owners_mem ((hmem f).mp hf).1).1 hc heq
          exact Or.inr hf
    · rintro (hsel | hsel)
      · exact Or.inl ⟨c, hsel, rfl⟩
      · exact Or.inr ⟨c, List.mem_append_right _ hsel, rfl⟩
  refine ⟨?_, fun x => ?_, fun x => ?_, fun f hf hfkind hfown => ?_⟩
  · rw [Pairing.add_additions, howners]
    by_cases hsel : c ∈ selected ∨ c ∈ added
    · refine ⟨added, by rw [if_pos (hknown.mpr hsel), List.append_nil, Pairing.pair, hadd], hnodup,
        fun d => ?_⟩
      rw [hmem, List.mem_append, List.mem_singleton]
      refine and_congr_left fun hd => ⟨Or.inl, ?_⟩
      rintro (hd' | rfl)
      · exact hd'
      · exact ((hmem d).mp (hsel.resolve_left hd)).1
    · refine ⟨added ++ [c], ?_, ?_, fun d => ?_⟩
      · rw [if_neg (mt hknown.mp hsel), Pairing.pair, hadd, List.append_assoc]
      · push Not at hsel
        rw [List.nodup_append]
        refine ⟨hnodup, by simp, fun a ha b hb => ?_⟩
        rw [List.mem_singleton.mp hb]
        rintro rfl
        exact hsel.2 ha
      · push Not at hsel
        rw [List.mem_append, hmem, List.mem_append, List.mem_singleton]
        constructor
        · rintro (⟨hd, hnot⟩ | rfl)
          · exact ⟨Or.inl hd, hnot⟩
          · exact ⟨Or.inr rfl, hsel.1⟩
        · rintro ⟨hd | rfl, hnot⟩
          · exact Or.inl ⟨hd, hnot⟩
          · exact Or.inr rfl
  · rw [Pairing.add_removals, Pairing.pair, h.removals]
    simp [or_and_right, exists_or, hown]
  · rw [Pairing.add_pairedCalls, Pairing.pair, List.mem_cons, h.calls, howners]
    simp only [List.mem_append, List.mem_singleton, or_and_right, exists_or, exists_eq_left]
    exact or_left_comm.trans (or_congr_right or_comm)
  · rw [Pairing.add_pairedResults, Pairing.pair]
    rcases List.mem_append.mp hf with hf | hf
    · exact List.mem_cons_of_mem _ (h.results f hf hfkind hfown)
    · rw [List.mem_singleton.mp hf]
      exact List.mem_cons_self

/-- What the two loops build from a selection. -/
lemma paired (h : Newest cs recent selected) {st₁ st₂ : Pairing}
    (hcalls : foldE selected (Context.answerCalls io selected cs) {} = .ok st₁)
    (hresults : foldE selected (pairResult io selected cs) st₁ = .ok st₂) :
    Paired io cs selected selected st₂ := by
  obtain ⟨hadd, hrem, hpair⟩ := h.answerCalls hcalls
  refine foldE_prefix (Paired io cs selected) hresults ?_ ?_
  · refine ⟨⟨[], by simpa using hadd, List.nodup_nil, by simp [owners]⟩, by simp [hrem], ?_, by simp⟩
    intro x
    rw [hpair]
    simp [owners]
  · intro done e todo hsplit st st' hst hstep
    have he : e ∈ selected := by simp [hsplit]
    unfold pairResult at hstep
    split at hstep
    · rename_i hkind
      obtain ⟨a, b, hcs⟩ := List.append_of_mem (h.mem he)
      have hown := h.fresh.ownCall io hcs
      have hplace := h.fresh.position? hcs
      rw [hplace] at hstep
      obtain ⟨found, hfound, hstep⟩ := except_bind_eq_ok.mp hstep
      have htake : cs.take a.length = a := by simp [hcs]
      rw [htake] at hfound
      rw [hfound] at hown
      cases found with
      | none =>
        obtain rfl := Except.ok.inj hstep
        exact hst.remove hkind (by simpa [Except.toOption] using hown)
      | some c =>
        obtain rfl := Except.ok.inj hstep
        exact hst.join h hkind (by simpa [Except.toOption] using hown)
    · rename_i hkind
      obtain rfl := Except.ok.inj hstep
      exact hst.skip hkind

/-- The ids that the pairing drops are those of the selected entries without a partner. -/
lemma mem_unpaired (h : Newest cs recent selected) (hst : Paired io cs selected selected st)
    {x : String} : x ∈ unpaired selected st ↔
      ∃ e ∈ selected, survives io cs selected e = false ∧ e.entryId = x := by
  obtain ⟨added, hadd, -, hmem⟩ := hst.additions
  have hcall : ∀ e ∈ selected, e.kind = "tool_call" →
      (e.entryId ∉ st.pairedCalls ↔ survives io cs selected e = false) := by
    intro e he hkind
    rw [hst.calls, survives, if_pos hkind, Bool.or_eq_false_iff, not_or]
    refine and_congr ?_ ?_
    · simp only [decide_eq_false_iff_not, not_exists, not_and]
      constructor
      · exact fun hall hids => hall e he hkind hids rfl
      · intro hids f hf _ hne heq
        obtain rfl := h.fresh.inj (h.mem he) (h.mem hf) heq
        exact hids hne
    · rw [← Bool.not_eq_true, List.contains_iff_mem, not_iff_not]
      constructor
      · rintro ⟨c, hc, heq⟩
        rwa [h.fresh.inj (h.mem he) (owners_mem hc).1 heq]
      · exact fun hc => ⟨e, hc, rfl⟩
  have hresult : ∀ e ∈ selected, e.kind = "tool_result" →
      survives io cs selected e = (ownCall io cs e).isSome := by
    intro e he hkind
    simp [survives, hkind]
  simp only [unpaired, List.mem_append, List.mem_map, List.mem_filter, Bool.and_eq_true,
    decide_eq_true_eq, Bool.not_eq_true', ← Bool.not_eq_true, List.contains_iff_mem, hst.removals]
  constructor
  · rintro ((⟨e, he, hkind, hown, rfl⟩ | ⟨e, ⟨he, hkind, hnot⟩, rfl⟩) | ⟨e, ⟨he, hkind, hnot⟩, rfl⟩)
    · exact ⟨e, he, by simp [hresult e he hkind, hown], rfl⟩
    · rcases he with he | he
      · exact ⟨e, he, by simpa using (hcall e he hkind).mp hnot, rfl⟩
      · rw [hadd] at he
        rcases List.mem_append.mp he with he | he
        · obtain ⟨d, -, he⟩ := List.mem_flatMap.mp he
          obtain ⟨id, -, rfl⟩ := mem_missing.mp he
          simp at hkind
        · exact absurd ((hst.calls _).mpr (Or.inr ⟨e, ((hmem e).mp he).1, rfl⟩)) hnot
    · refine ⟨e, he, ?_, rfl⟩
      have hown : ownCall io cs e = none := by_contra fun hown => hnot (hst.results e he hkind hown)
      simp [hresult e he hkind, hown]
  · rintro ⟨e, he, hsurvives, rfl⟩
    by_cases hkind : e.kind = "tool_call"
    · exact Or.inl (Or.inr ⟨e, ⟨Or.inl he, hkind, (hcall e he hkind).mpr (by simpa using hsurvives)⟩,
        rfl⟩)
    · by_cases hkind' : e.kind = "tool_result"
      · rw [hresult e he hkind'] at hsurvives
        exact Or.inl (Or.inl ⟨e, he, hkind', by simpa using hsurvives, rfl⟩)
      · simp [survives, hkind, hkind'] at hsurvives

lemma mem_owners_iff (h : Newest cs recent selected) {c : EntryDraft} :
    c ∈ owners io cs selected ↔ c ∈ owners io cs recent := by
  simp only [mem_owners, h.perm.mem_iff]

lemma survives_eq (h : Newest cs recent selected) (e : EntryDraft) :
    survives io cs selected e = survives io cs recent e := by
  have hc : (owners io cs selected).contains e = (owners io cs recent).contains e := by
    rw [Bool.eq_iff_iff, List.contains_iff_mem, List.contains_iff_mem, h.mem_owners_iff]
  simp only [survives, hc]

lemma missing_of_not_survives (h : survives io cs recent e = false) : missing io cs e = [] := by
  unfold survives at h
  split at h
  · rename_i hkind
    simp only [Bool.or_eq_false_iff, decide_eq_false_iff_not, ne_eq, not_not] at h
    simp [missing, openIds, hkind, h.1]
  · rename_i hkind
    simp [missing, openIds, hkind]

lemma shown_of_mem (he : e ∈ recent) : shown io cs recent e =
    (if survives io cs recent e then [e] else []) ++ missing io cs e := by
  rw [shown, if_pos he]
  cases h : survives io cs recent e with
  | true => simp
  | false => simp [missing_of_not_survives h]

lemma flatMap_singleton_eq_filter {l : List EntryDraft} {f : EntryDraft → List EntryDraft}
    {p : EntryDraft → Bool} (h : ∀ e ∈ l, f e = if p e then [e] else []) :
    l.flatMap f = l.filter p := by
  induction l with
  | nil => rfl
  | cons e l ih =>
    rw [List.flatMap_cons, h e (by simp), ih fun f hf => h f (by simp [hf]), List.filter_cons]
    split <;> rfl

/-- What is left after the pairing is what the candidates contribute, in another order. -/
lemma kept_perm (h : Newest cs recent selected) (hst : Paired io cs selected selected st) :
    ∃ added, ((selected ++ st.additions).filter fun e =>
        !(unpaired selected st).contains e.entryId) =
      selected.filter (survives io cs recent) ++ (selected.flatMap (missing io cs) ++ added) ∧
    (selected.filter (survives io cs recent) ++ (selected.flatMap (missing io cs) ++ added)).Perm
      (cs.flatMap (shown io cs recent)) := by
  obtain ⟨added, hadd, hnodup, hmem⟩ := hst.additions
  refine ⟨added, ?_, ?_⟩
  · rw [hadd, List.filter_append]
    congr 1
    · refine List.filter_congr fun e he => ?_
      rw [← h.survives_eq, Bool.eq_iff_iff, Bool.not_eq_true', ← Bool.not_eq_true,
        List.contains_iff_mem, h.mem_unpaired hst, ← Bool.not_eq_false]
      refine not_congr ⟨?_, fun hs => ⟨e, he, hs, rfl⟩⟩
      rintro ⟨f, hf, hs, heq⟩
      rwa [h.fresh.inj (h.mem he) (h.mem hf) heq.symm]
    · refine List.filter_eq_self.mpr fun e he => ?_
      rw [Bool.not_eq_true', ← Bool.not_eq_true, List.contains_iff_mem, h.mem_unpaired hst]
      rintro ⟨f, hf, -, heq⟩
      rcases List.mem_append.mp he with he | he
      · obtain ⟨d, hd, he⟩ := List.mem_flatMap.mp he
        refine h.fresh.missing_notMem (h.mem hd) he ?_
        rw [← heq]
        exact List.mem_map_of_mem (h.mem hf)
      · obtain ⟨hown, hnot⟩ := (hmem e).mp he
        apply hnot
        rwa [← h.fresh.inj (h.mem hf) (owners_mem hown).1 heq]
  · obtain ⟨before, hsplit⟩ := h.suffix
    have hcsnodup := h.fresh.nodup
    rw [← hsplit] at hcsnodup
    obtain ⟨hbefore, hrecent, hdisjoint⟩ := List.nodup_append.mp hcsnodup
    have hcs (f : EntryDraft → List EntryDraft) :
        cs.flatMap f = before.flatMap f ++ recent.flatMap f := by
      rw [← hsplit, List.flatMap_append]
    have hold : before.flatMap (shown io cs recent) =
        before.filter ((owners io cs recent).contains ·) := by
      refine flatMap_singleton_eq_filter fun e he => ?_
      have hnot : e ∉ recent := fun hr => hdisjoint e he e hr rfl
      simp [shown, hnot]
    have hnew : (recent.filter (survives io cs recent) ++ recent.flatMap (missing io cs)).Perm
        (recent.flatMap (shown io cs recent)) := by
      have := List.flatMap_append_perm recent
        (fun e => if survives io cs recent e then [e] else []) (missing io cs)
      rw [flatMap_singleton_eq_filter fun _ _ => rfl] at this
      refine this.trans (List.Perm.of_eq ?_)
      exact List.flatMap_congr fun e he => (shown_of_mem he).symm
    have hadded : added.Perm (before.filter ((owners io cs recent).contains ·)) := by
      rw [List.perm_ext_iff_of_nodup hnodup (hbefore.filter _)]
      intro c
      rw [hmem, h.mem_owners_iff, List.mem_filter, List.contains_iff_mem, h.perm.mem_iff]
      constructor
      · rintro ⟨hown, hnot⟩
        have hc := (owners_mem hown).1
        rw [← hsplit] at hc
        exact ⟨(List.mem_append.mp hc).resolve_right hnot, hown⟩
      · rintro ⟨hc, hown⟩
        exact ⟨hown, fun hr => hdisjoint c hc c hr rfl⟩
    rw [hcs, hold, ← List.append_assoc]
    refine List.Perm.trans ?_ List.perm_append_comm
    refine List.Perm.append (List.Perm.trans ?_ hnew) hadded
    exact (h.perm.filter _).append (h.perm.flatMap_right _)

def placeOf (cs : List EntryDraft) (e : EntryDraft) : Nat := (Context.position? cs e.entryId).getD 0

def keyOf (cs : List EntryDraft) (e : EntryDraft) : Nat ×ₗ Bool :=
  match Context.position? cs e.entryId with
  | some n => toLex (n, false)
  | none => toLex ((Context.position? cs (e.parentId.getD "")).getD 0, true)

lemma keyOf_of_mem (h : FreshIds cs) (he : e ∈ cs) :
    keyOf cs e = toLex (placeOf cs e, false) ∧ sortKey cs e = .ok (keyOf cs e) := by
  obtain ⟨a, b, hcs⟩ := List.append_of_mem he
  simp [keyOf, placeOf, sortKey, h.position? hcs]

lemma keyOf_of_missing (h : FreshIds cs) {e f : EntryDraft} (he : e ∈ cs)
    (hf : f ∈ missing io cs e) :
    keyOf cs f = toLex (placeOf cs e, true) ∧ sortKey cs f = .ok (keyOf cs f) := by
  have hnone := position?_eq_none.mpr (h.missing_notMem he hf)
  obtain ⟨id, -, rfl⟩ := mem_missing.mp hf
  obtain ⟨a, b, hcs⟩ := List.append_of_mem he
  have hparent : (missingResult io e id).parentId.getD "" = e.entryId := rfl
  simp only [keyOf, placeOf, sortKey, hnone, hparent, position, h.position? hcs]
  exact ⟨trivial, rfl⟩

lemma keyOf_of_shown (h : FreshIds cs) {e f : EntryDraft} (he : e ∈ cs)
    (hf : f ∈ shown io cs recent e) :
    (∃ b, keyOf cs f = toLex (placeOf cs e, b)) ∧ sortKey cs f = .ok (keyOf cs f) := by
  have hf : f = e ∨ f ∈ missing io cs e := by
    unfold shown at hf
    split at hf <;> split at hf <;> simp_all
  rcases hf with rfl | hf
  · obtain ⟨hkey, hsort⟩ := keyOf_of_mem h he
    exact ⟨⟨_, hkey⟩, hsort⟩
  · obtain ⟨hkey, hsort⟩ := keyOf_of_missing h he hf
    exact ⟨⟨_, hkey⟩, hsort⟩

lemma placeOf_pairwise (h : FreshIds cs) :
    cs.Pairwise fun e f => placeOf cs e < placeOf cs f := by
  have hplace : ∀ i (hi : i < cs.length), placeOf cs cs[i] = i := by
    intro i hi
    have hcs : cs = cs.take i ++ cs[i] :: cs.drop (i + 1) := by
      rw [← List.drop_eq_getElem_cons hi, List.take_append_drop]
    rw [placeOf, h.position? hcs, Option.getD_some, List.length_take]
    omega
  rw [List.pairwise_iff_getElem]
  intro i j hi hj hij
  rwa [hplace i hi, hplace j hj]

lemma missing_nodup (e : EntryDraft) : (missing io cs e).Nodup := by
  refine List.Nodup.map (fun id id' heq => missingId_inj (congrArg EntryDraft.entryId heq)) ?_
  unfold openIds
  split
  · exact nodup_eraseDups _
  · exact List.nodup_nil

lemma shown_nodup (io : Host) (recent : List EntryDraft) (h : FreshIds cs) (he : e ∈ cs) :
    (shown io cs recent e).Nodup := by
  unfold shown
  split <;> split
  · refine List.nodup_cons.mpr ⟨fun hmem => ?_, missing_nodup e⟩
    exact h.missing_notMem he hmem (List.mem_map_of_mem he)
  all_goals simp

lemma restored_nodup (h : FreshIds cs) : (cs.flatMap (shown io cs recent)).Nodup := by
  refine List.nodup_flatMap.mpr ⟨fun e he => shown_nodup io recent h he, ?_⟩
  refine (List.Pairwise.and_mem.mp (placeOf_pairwise h)).imp ?_
  rintro e f ⟨he, hf, hlt⟩ x hx hx'
  obtain ⟨⟨b, hb⟩, -⟩ := keyOf_of_shown h he hx
  obtain ⟨⟨b', hb'⟩, -⟩ := keyOf_of_shown h hf hx'
  have := congrArg (fun k => (ofLex k).1) (hb.symm.trans hb')
  exact absurd this (Nat.ne_of_lt hlt)

/-- The missing results of a call keep their order. -/
lemma shown_pairwise (h : FreshIds cs) (he : e ∈ cs) {l : List EntryDraft}
    (hl : e ∈ recent → (missing io cs e).Sublist l) : (shown io cs recent e).Pairwise fun x y =>
      ¬ keyOf cs y ≤ keyOf cs x ∨ (keyOf cs x ≤ keyOf cs y ∧ [x, y].Sublist l) := by
  unfold shown
  split
  · rename_i hrecent
    split
    · refine List.pairwise_cons.mpr ⟨fun y hy => Or.inl ?_, ?_⟩
      · rw [(keyOf_of_missing h he hy).1, (keyOf_of_mem h he).1, not_le, Prod.Lex.toLex_lt_toLex]
        exact Or.inr ⟨rfl, Bool.false_lt_true⟩
      · rw [List.pairwise_iff_forall_sublist]
        intro x y hxy
        have hx := (keyOf_of_missing h he (hxy.subset List.mem_cons_self)).1
        have hy := (keyOf_of_missing h he (hxy.subset (List.mem_cons_of_mem _
          (List.mem_singleton_self y)))).1
        exact Or.inr ⟨by rw [hx, hy], hxy.trans (hl hrecent)⟩
    · exact List.Pairwise.nil
  · split <;> simp

end Newest

/-- `_restore_tool_pairs` on the newest candidates returns what the candidates contribute, in the
order of the path. -/
theorem restoreToolPairs_eq {selected restored : List EntryDraft} (h : Newest cs recent selected)
    (hrestore : restoreToolPairs io selected cs = .ok restored) :
    restored = cs.flatMap (shown io cs recent) := by
  obtain ⟨st₁, hcalls, hrestore⟩ := except_bind_eq_ok.mp hrestore
  obtain ⟨st₂, hresults, hrestore⟩ := except_bind_eq_ok.mp hrestore
  obtain ⟨added, hkept, hperm⟩ := h.kept_perm (h.paired hcalls hresults)
  rw [hkept] at hrestore
  generalize hl : selected.filter (survives io cs recent) ++
    (selected.flatMap (missing io cs) ++ added) = l at hrestore hperm
  have hkeys : ∀ e ∈ l, sortKey cs e = .ok (Newest.keyOf cs e) := by
    intro e he
    obtain ⟨c, hc, he⟩ := List.mem_flatMap.mp (hperm.subset he)
    exact (Newest.keyOf_of_shown h.fresh hc he).2
  obtain ⟨keyed, hkeyed, hrestore⟩ := except_bind_eq_ok.mp hrestore
  have hmap := mapM_eq_ok (g := fun e => (Newest.keyOf cs e, e)) (l := l)
    (f := fun e => do
      let key ← sortKey cs e
      pure (key, e)) fun e he => by rw [hkeys e he]; rfl
  obtain rfl := Except.ok.inj (hmap.symm.trans hkeyed)
  obtain rfl := Except.ok.inj hrestore
  have hsort := List.map_insertionSort (fun a b => Newest.keyOf cs a ≤ Newest.keyOf cs b)
    (fun a b : (Nat ×ₗ Bool) × EntryDraft => a.1 ≤ b.1) (fun e => (Newest.keyOf cs e, e)) l
    fun _ _ _ _ => Iff.rfl
  have hsnd : (Prod.snd ∘ fun e => (Newest.keyOf cs e, e)) = id := rfl
  rw [← hsort, List.map_map, hsnd, List.map_id]
  have : Std.Total fun a b => Newest.keyOf cs a ≤ Newest.keyOf cs b := ⟨fun a b => le_total _ _⟩
  have : IsTrans EntryDraft fun a b => Newest.keyOf cs a ≤ Newest.keyOf cs b :=
    ⟨fun a b c => le_trans⟩
  refine insertionSort_eq (Newest.restored_nodup h.fresh) hperm ?_
  refine List.pairwise_flatMap.mpr
    ⟨fun e he => Newest.shown_pairwise h.fresh he fun hrecent => ?_, ?_⟩
  · rw [← hl]
    refine List.Sublist.trans ?_ (List.sublist_append_right _ _)
    refine List.Sublist.trans ?_ (List.sublist_append_left _ _)
    rw [List.flatMap]
    exact List.sublist_flatten_of_mem (List.mem_map_of_mem (h.perm.symm.subset hrecent))
  · refine (List.Pairwise.and_mem.mp (Newest.placeOf_pairwise h.fresh)).imp ?_
    rintro e f ⟨he, hf, hlt⟩ x hx y hy
    obtain ⟨⟨b, hb⟩, -⟩ := Newest.keyOf_of_shown h.fresh he hx
    obtain ⟨⟨b', hb'⟩, -⟩ := Newest.keyOf_of_shown h.fresh hf hy
    rw [hb, hb', not_le, Prod.Lex.toLex_lt_toLex]
    exact Or.inl (Or.inl hlt)

end Context

end Codey
