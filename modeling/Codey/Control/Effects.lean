import Codey.Control.Service
import Codey.Lib.Lists
import Codey.Lib.Stops

/-!
# What a command does

The commits that each operation of the control service makes, up to any point at which it may be
stopped.
-/

namespace Codey

namespace Control

variable {φ : Type}

/-! ### Tasks -/

/-- A task goes on: it is the same input, stays terminal, and stays cancelled. -/
structure Task.Evolves (t t' : Task φ) : Prop where
  taskId : t'.taskId = t.taskId
  conversationId : t'.conversationId = t.conversationId
  inputIdentity : t'.inputIdentity = t.inputIdentity
  sent : t'.sent = t.sent
  terminal : t.status.terminal = true → t'.status.terminal = true
  cancelRequested : t.cancelRequested = true → t'.cancelRequested = true

lemma Task.Evolves.refl (t : Task φ) : t.Evolves t :=
  ⟨rfl, rfl, rfl, rfl, id, id⟩

lemma Task.Evolves.trans {t u v : Task φ} (h : t.Evolves u) (h' : u.Evolves v) :
    t.Evolves v where
  taskId := h'.taskId.trans h.taskId
  conversationId := h'.conversationId.trans h.conversationId
  inputIdentity := h'.inputIdentity.trans h.inputIdentity
  sent := h'.sent.trans h.sent
  terminal := fun ht => h'.terminal (h.terminal ht)
  cancelRequested := fun ht => h'.cancelRequested (h.cancelRequested ht)

lemma Task.evolves_cancel (env : Env φ) (t : Task φ) : t.Evolves (t.cancel env) := by
  unfold Task.cancel
  split_ifs with h
  · exact .refl t
  · have hlive : t.status.terminal = false := by
      simp only [Bool.or_eq_true, not_or] at h
      simpa using h.1
    exact ⟨rfl, rfl, rfl, rfl, fun ht => absurd ht (by simp [hlive]), fun _ => rfl⟩

lemma Task.cancel_done (env : Env φ) (t : Task φ) :
    (t.cancel env).status.terminal = true ∨ (t.cancel env).cancelRequested = true := by
  unfold Task.cancel
  split_ifs with h
  · simpa using h
  · exact Or.inr rfl

/-- No task comes or goes, and each of them goes on. -/
def Carried (ts ts' : List (Task φ)) : Prop := List.Forall₂ Task.Evolves ts ts'

lemma Carried.refl (ts : List (Task φ)) : Carried ts ts :=
  List.forall₂_same.mpr fun t _ => .refl t

lemma Carried.trans {ts us vs : List (Task φ)} (h : Carried ts us) (h' : Carried us vs) :
    Carried ts vs := by
  induction h generalizing vs with
  | nil => exact h'
  | cons ht _ ih =>
    cases h' with
    | cons ht' hrest => exact .cons (ht.trans ht') (ih hrest)

lemma carried_map {f : Task φ → Task φ} (hf : ∀ t : Task φ, t.Evolves (f t)) (ts : List (Task φ)) :
    Carried ts (ts.map f) :=
  List.forall₂_map_right_iff.mpr (List.forall₂_same.mpr fun t _ => hf t)

lemma Carried.mem_right {ts ts' : List (Task φ)} (h : Carried ts ts') {t' : Task φ}
    (ht : t' ∈ ts') : ∃ t ∈ ts, t.Evolves t' := exists_of_forall₂_right h ht

lemma Carried.countP_eq {ts ts' : List (Task φ)} (h : Carried ts ts') {p : Task φ → Bool}
    (hp : ∀ t t' : Task φ, t.Evolves t' → p t' = p t) : ts'.countP p = ts.countP p := by
  induction h with
  | nil => rfl
  | cons hhead _ ih => simp only [List.countP_cons, ih, hp _ _ hhead]

/-! ### Control entries -/

section Entries

variable (w : World φ) (r : Record φ) (c requestId : String)

@[simp] lemma entries_record : (w.record r).entries c =
    w.entries c ++ if r.conversationId = c then [r] else [] := by
  simp only [World.entries, World.record, List.filter_append]
  split_ifs with h <;> simp [h]

@[simp] lemma latest_record : (w.record r).latest c =
    if r.conversationId = c then r.config.or (w.latest c) else w.latest c := by
  simp only [World.latest, entries_record]
  split_ifs with h
  · rw [List.reverse_append, List.reverse_singleton, List.singleton_append,
      List.findSome?_cons]
    cases r.config <;> rfl
  · rw [List.append_nil]

@[simp] lemma answered_record : (w.record r).answered c requestId =
    if r.conversationId = c ∧ r.requestId = requestId then some r else w.answered c requestId := by
  simp only [World.answered, entries_record]
  by_cases hc : r.conversationId = c
  · rw [if_pos hc, List.reverse_append, List.reverse_singleton, List.singleton_append,
      List.find?_cons]
    by_cases hr : r.requestId = requestId <;> simp [hc, hr]
  · simp [hc]

variable {w r c requestId}

lemma answered_eq_none_iff : w.answered c requestId = none ↔
    ∀ r ∈ w.records, r.conversationId = c → r.requestId ≠ requestId := by
  simp only [World.answered, World.entries, List.find?_eq_none, List.mem_reverse, List.mem_filter,
    decide_eq_true_eq, and_imp]

lemma of_answered (h : w.answered c requestId = some r) :
    r ∈ w.records ∧ r.conversationId = c ∧ r.requestId = requestId := by
  have hmem := List.mem_of_find?_eq_some h
  have hid := List.find?_some h
  simp only [World.entries, List.mem_reverse, List.mem_filter, decide_eq_true_eq] at hmem
  exact ⟨hmem.1, hmem.2, by simpa using hid⟩

lemma exists_of_latest {config : Config} (h : w.latest c = some config) :
    ∃ r ∈ w.records, r.conversationId = c ∧ r.config = some config := by
  obtain ⟨r, hr, hconfig⟩ := List.exists_of_findSome?_eq_some h
  simp only [World.entries, List.mem_reverse, List.mem_filter, decide_eq_true_eq] at hr
  exact ⟨r, hr.1, hr.2, hconfig⟩

lemma latest_of_entries {w' : World φ} (heq : w'.entries c = w.entries c) :
    w'.latest c = w.latest c := by
  rw [World.latest, World.latest, heq]

lemma answered_of_entries {w' : World φ} (heq : w'.entries c = w.entries c)
    (requestId : String) : w'.answered c requestId = w.answered c requestId := by
  rw [World.answered, World.answered, heq]

lemma latest_congr {w' : World φ} (h : w'.records = w.records) : w'.latest c = w.latest c :=
  latest_of_entries (by rw [World.entries, World.entries, h])

lemma answered_congr {w' : World φ} (h : w'.records = w.records) :
    w'.answered c requestId = w.answered c requestId :=
  answered_of_entries (by rw [World.entries, World.entries, h]) requestId

end Entries

/-! ### Cancellation -/

structure Cancels (w w' : World φ) : Prop where
  records : w'.records = w.records
  reviews : w'.reviews = w.reviews
  answers : w'.answers = w.answers
  tasks : Carried w.tasks w'.tasks

lemma Cancels.refl (w : World φ) : Cancels w w := ⟨rfl, rfl, rfl, .refl _⟩

lemma Cancels.trans {w w' w'' : World φ} (h : Cancels w w') (h' : Cancels w' w'') :
    Cancels w w'' :=
  ⟨h'.records.trans h.records, h'.reviews.trans h.reviews, h'.answers.trans h.answers,
    h.tasks.trans h'.tasks⟩

section Cancel

variable {env : Env φ} {w w' : World φ}

lemma cancels_requestCancel (taskId : String) :
    Cancels w { w with
      tasks := w.tasks.map fun t => if t.taskId = taskId then t.cancel env else t } := by
  refine ⟨rfl, rfl, rfl, carried_map (fun t => ?_) _⟩
  split_ifs
  · exact t.evolves_cancel env
  · exact .refl t

lemma stops_requestCancel {taskId : String} (h : Prog.Stops (requestCancel env taskId) w w') :
    Cancels w w' := by
  obtain rfl | h := h
  · exact .refl _
  · obtain rfl : w' = _ := h
    exact cancels_requestCancel taskId

lemma stops_cancel {t : Task φ} (h : Prog.Stops (cancel env t) w w') : Cancels w w' := by
  unfold cancel at h
  split_ifs at h
  · obtain rfl : w' = w := h
    exact .refl _
  · exact stops_requestCancel h

lemma stops_cancelOwned {c : String} {generation : Int}
    (h : Prog.Stops (cancelOwned env c generation) w w') : Cancels w w' := by
  simp only [cancelOwned, Prog.bind_eq] at h
  obtain hsee | ⟨tasks, t, hrun, hloop⟩ := Prog.stops_bind.mp h
  · obtain rfl : w' = w := Prog.stops_readE.mp hsee
    exact .refl _
  · obtain ⟨-, rfl⟩ : tasks = w.tasks ∧ t = w := by
      simpa [see, Prod.ext_iff, eq_comm] using hrun
    refine Prog.stops_forEach Cancels.refl (fun _ _ _ => Cancels.trans) (fun t _ u u' hu => ?_) hloop
    split_ifs at hu
    · exact stops_cancel hu
    · obtain rfl : u' = u := hu
      exact .refl _

/-- Every task of the list that came under an earlier generation ends cancelled. -/
lemma run_cancelEach (env : Env φ) (c : String) (generation : Int) (tasks : List (Task φ))
    (w : World φ) :
    ∃ w', (Prog.forEach tasks fun t =>
        if t.ownedBefore c generation then cancel env t else pure ()).run w = (.ok (), w') ∧
      Cancels w w' ∧ ∀ t ∈ tasks, t.ownedBefore c generation = true →
        t.status.terminal = false → ∀ t' ∈ w'.tasks, t'.taskId = t.taskId →
        t'.status.terminal = true ∨ t'.cancelRequested = true := by
  induction tasks generalizing w with
  | nil => exact ⟨w, rfl, .refl w, by simp⟩
  | cons t tasks ih =>
    -- the first task, then the others
    obtain ⟨v, hv, hcancels, hdone⟩ : ∃ v, (if t.ownedBefore c generation then cancel env t
        else pure ()).run w = (.ok (), v) ∧ Cancels w v ∧ (t.ownedBefore c generation = true →
        t.status.terminal = false → ∀ t' ∈ v.tasks, t'.taskId = t.taskId →
        t'.status.terminal = true ∨ t'.cancelRequested = true) := by
      by_cases howned : t.ownedBefore c generation = true
      · rw [if_pos howned]
        unfold cancel
        by_cases hterm : t.status.terminal = true
        · rw [if_pos hterm]
          exact ⟨w, rfl, .refl w, fun _ hlive => absurd hterm (by simp [hlive])⟩
        · rw [if_neg hterm]
          refine ⟨_, rfl, cancels_requestCancel t.taskId, fun _ _ t' ht' hid => ?_⟩
          obtain ⟨u, -, rfl⟩ := List.mem_map.mp ht'
          split_ifs at hid ⊢ with hu
          · exact u.cancel_done env
          · exact absurd hid hu
      · rw [if_neg howned]
        exact ⟨w, rfl, .refl w, fun h => absurd h howned⟩
    obtain ⟨w', hw', hrest, hall⟩ := ih v
    refine ⟨w', (Prog.run_bind_ok hv).trans hw', hcancels.trans hrest, ?_⟩
    intro u hu howned hlive t' ht' hid
    obtain rfl | hu := List.mem_cons.mp hu
    · obtain ⟨s, hs, hev⟩ := hrest.tasks.mem_right ht'
      have := hdone howned hlive s hs (hev.taskId ▸ hid)
      exact this.imp hev.terminal hev.cancelRequested
    · exact hall u hu howned hlive t' ht' hid

/-- The cancellation of what came under an earlier generation misses nothing. -/
lemma run_cancelOwned (env : Env φ) (c : String) (generation : Int) (w : World φ) :
    ∃ w', (cancelOwned env c generation).run w = (.ok (), w') ∧ Cancels w w' ∧
      ∀ t ∈ w'.tasks, t.ownedBefore c generation = true →
        t.status.terminal = true ∨ t.cancelRequested = true := by
  obtain ⟨w', hrun, hcancels, hdone⟩ := run_cancelEach env c generation w.tasks w
  refine ⟨w', ?_, hcancels, fun t' ht' howned => ?_⟩
  · exact (Prog.run_bind_ok (Prog.run_readE _ w)).trans hrun
  · obtain ⟨t, ht, hev⟩ := hcancels.tasks.mem_right ht'
    have howned : t.ownedBefore c generation = true := by
      rw [Task.ownedBefore, ← hev.conversationId, ← hev.sent]
      exact howned
    cases hterm : t.status.terminal with
    | true => exact Or.inl (hev.terminal hterm)
    | false => exact hdone t ht howned hterm t' ht' hev.taskId

end Cancel

end Control

end Codey
