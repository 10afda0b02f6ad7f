import Codey.Lib.Prog

/-!
# Programs that stop early

What a program that runs alone may leave when it is stopped after any of its steps, as by a crash.
-/

namespace Codey

namespace Prog

variable {σ ε α β : Type}

/-- `p`, started in `s`, is stopped in `s'`: before a step, or at its end. -/
def Stops : Prog σ ε α → σ → σ → Prop
  | ret _, s, s' => s' = s
  | throw _, s, s' => s' = s
  | step upd next, s, s' => s' = s ∨ Stops (next s) (upd s) s'

variable {s s' : σ}

@[simp] lemma stops_ret {a : α} : Stops (ret a : Prog σ ε α) s s' ↔ s' = s := Iff.rfl

@[simp] lemma stops_throw {e : ε} : Stops (throw e : Prog σ ε α) s s' ↔ s' = s := Iff.rfl

@[simp] lemma stops_step {upd : σ → σ} {next : σ → Prog σ ε α} :
    Stops (step upd next) s s' ↔ s' = s ∨ Stops (next s) (upd s) s' := Iff.rfl

lemma stops_self (p : Prog σ ε α) (s : σ) : Stops p s s := by
  cases p with
  | ret a => rfl
  | throw e => rfl
  | step upd next => exact Or.inl rfl

/-- A program may run to its end. -/
lemma stops_run (p : Prog σ ε α) (s : σ) : Stops p s (p.run s).2 := by
  induction p generalizing s with
  | ret a => rfl
  | throw e => rfl
  | step upd next ih => exact Or.inr (ih s (upd s))

@[simp] lemma stops_readE {f : σ → Except ε α} : Stops (readE f) s s' ↔ s' = s := by
  rw [readE, stops_step]
  cases f s <;> simp

variable {x : Except ε α}

@[simp] lemma stops_ofExcept : Stops (ofExcept x : Prog σ ε α) s s' ↔ s' = s := by
  cases x <;> rfl

variable {p : Prog σ ε α} {f : α → Prog σ ε β}

/-- A sequence stops in its first part, or after it in its second part. -/
lemma stops_bind :
    Stops (p.bind f) s s' ↔
      Stops p s s' ∨ ∃ a t, p.run s = (.ok a, t) ∧ Stops (f a) t s' := by
  induction p generalizing s with
  | ret a =>
    constructor
    · exact fun h => Or.inr ⟨a, s, rfl, h⟩
    · rintro (h | ⟨a', t, hrun, h⟩)
      · obtain rfl : s' = s := h
        exact stops_self _ _
      · cases hrun
        exact h
  | throw e => simp
  | step upd next ih => simp only [step_bind, stops_step, ih, run_step, or_assoc]

lemma stops_handle {h : ε → Prog σ ε α} (hs : Stops (p.handle h) s s') :
    Stops p s s' ∨ ∃ e t, p.run s = (.error e, t) ∧ Stops (h e) t s' := by
  induction p generalizing s with
  | ret a => exact Or.inl hs
  | throw e => exact Or.inr ⟨e, s, rfl, hs⟩
  | step upd next ih =>
    obtain hs | hs := hs
    · exact Or.inl (Or.inl hs)
    · exact (ih s hs).imp_left Or.inr

/-- A relation that holds along every item of a loop holds along the loop. -/
lemma stops_forEach {I : σ → σ → Prop} (hrefl : ∀ s, I s s)
    (htrans : ∀ s t u, I s t → I t u → I s u) {xs : List α} {f : α → Prog σ ε Unit}
    (hf : ∀ x ∈ xs, ∀ s s', Stops (f x) s s' → I s s') (h : Stops (forEach xs f) s s') :
    I s s' := by
  induction xs generalizing s with
  | nil =>
    obtain rfl : s' = s := h
    exact hrefl _
  | cons x xs ih =>
    obtain h | ⟨_, t, hrun, h⟩ := stops_bind.mp h
    · exact hf x (by simp) _ _ h
    · have ht : I s t := by
        have := hf x (by simp) s _ (stops_run (f x) s)
        rwa [hrun] at this
      exact htrans _ _ _ ht (ih (fun y hy => hf y (by simp [hy])) h)

/-! ### Runs that return -/

/-- A loop over two lists is a loop over the first, and then over the second. -/
lemma forEach_append (xs ys : List α) (f : α → Prog σ ε Unit) :
    forEach (xs ++ ys) f = (forEach xs f).bind fun _ => forEach ys f := by
  induction xs with
  | nil => rfl
  | cons x xs ih => simp only [List.cons_append, forEach, ih, bind_assoc]

lemma run_bind_eq_ok {b : β} :
    (p.bind f).run s = (.ok b, s') ↔
      ∃ a t, p.run s = (.ok a, t) ∧ (f a).run t = (.ok b, s') := by
  rw [run_bind]
  rcases p.run s with ⟨e | a, t⟩
  · simp
  · constructor
    · exact fun h => ⟨a, t, rfl, h⟩
    · rintro ⟨a', t', heq, h⟩
      cases heq
      exact h

lemma run_bind_eq_error {s : σ} {e : ε} (h : ((p.bind f).run s).1 = .error e) :
    (p.run s).1 = .error e ∨ ∃ a t, p.run s = (.ok a, t) ∧ ((f a).run t).1 = .error e := by
  rw [run_bind] at h
  rcases hp : p.run s with ⟨e' | a, t⟩
  · rw [hp] at h
    obtain rfl := Except.error.inj h
    exact Or.inl rfl
  · rw [hp] at h
    exact Or.inr ⟨a, t, rfl, h⟩

lemma run_readE_eq_ok {f : σ → Except ε α} {a : α} :
    (readE f).run s = (.ok a, s') ↔ f s = .ok a ∧ s' = s := by
  rw [run_readE, Prod.mk.injEq, eq_comm (a := s)]

lemma run_ofExcept_eq_ok {a : α} :
    (ofExcept x : Prog σ ε α).run s = (.ok a, s') ↔ x = .ok a ∧ s' = s := by
  rw [run_ofExcept, Prod.mk.injEq, eq_comm (a := s)]

lemma run_readE_bind_eq_ok {f : σ → Except ε α} {g : α → Prog σ ε β} {b : β} :
    ((readE f).bind g).run s = (.ok b, s') ↔ ∃ a, f s = .ok a ∧ (g a).run s = (.ok b, s') := by
  rw [run_bind_eq_ok]
  constructor
  · rintro ⟨a, t, ha, h⟩
    obtain ⟨ha, rfl⟩ := run_readE_eq_ok.mp ha
    exact ⟨a, ha, h⟩
  · rintro ⟨a, ha, h⟩
    exact ⟨a, s, run_readE_eq_ok.mpr ⟨ha, rfl⟩, h⟩

lemma run_ofExcept_bind_eq_ok {g : α → Prog σ ε β} {b : β} :
    ((ofExcept x).bind g).run s = (.ok b, s') ↔ ∃ a, x = .ok a ∧ (g a).run s = (.ok b, s') := by
  cases x with
  | ok a => simp
  | error e => simp [ofExcept]

/-- What a program leaves when it has run to its end is a place to stop at. -/
lemma stops_of_run {r : Except ε α} (h : p.run s = (r, s')) : Stops p s s' := by
  have := stops_run p s
  rwa [h] at this

/-! ### Programs that only read -/

/-- A program that leaves the state as it is, wherever it is stopped. -/
def ReadOnly (p : Prog σ ε α) : Prop := ∀ s s', Stops p s s' → s' = s

lemma readOnly_ret (a : α) : ReadOnly (ret a : Prog σ ε α) := fun _ _ h => h

lemma readOnly_readE (f : σ → Except ε α) : ReadOnly (readE f) := fun _ _ => stops_readE.mp

lemma readOnly_ofExcept (x : Except ε α) : ReadOnly (ofExcept x : Prog σ ε α) :=
  fun _ _ => stops_ofExcept.mp

lemma ReadOnly.run (hp : ReadOnly p) {r : Except ε α} (h : p.run s = (r, s')) :
    s' = s := hp s s' (stops_of_run h)

/-- After reading, the program goes on in the same state. -/
lemma ReadOnly.stops_bind (hp : ReadOnly p) (h : Stops (p.bind f) s s') :
    s' = s ∨ ∃ a, p.run s = (.ok a, s) ∧ Stops (f a) s s' := by
  obtain h | ⟨a, t, hrun, h⟩ := Prog.stops_bind.mp h
  · exact Or.inl (hp _ _ h)
  · have ht := hp.run hrun
    exact Or.inr ⟨a, ht ▸ hrun, ht ▸ h⟩

lemma ReadOnly.run_bind (hp : ReadOnly p) {b : β} (h : (p.bind f).run s = (.ok b, s')) :
    ∃ a, p.run s = (.ok a, s) ∧ (f a).run s = (.ok b, s') := by
  obtain ⟨a, t, hrun, h⟩ := run_bind_eq_ok.mp h
  have ht := hp.run hrun
  exact ⟨a, ht ▸ hrun, ht ▸ h⟩

lemma ReadOnly.run_bind_error (hp : ReadOnly p) {s : σ} {e : ε}
    (h : ((p.bind f).run s).1 = .error e) :
    (p.run s).1 = .error e ∨ ∃ a, p.run s = (.ok a, s) ∧ ((f a).run s).1 = .error e := by
  obtain h | ⟨a, t, hrun, h⟩ := run_bind_eq_error h
  · exact Or.inl h
  · have ht := hp.run hrun
    exact Or.inr ⟨a, ht ▸ hrun, ht ▸ h⟩

lemma ReadOnly.bind (hp : ReadOnly p) (hf : ∀ a, ReadOnly (f a)) : ReadOnly (p.bind f) := by
  intro s s' h
  obtain h | ⟨a, -, h⟩ := hp.stops_bind h
  · exact h
  · exact hf a s s' h

/-! ### Stopped or returned -/

/-- `p`, started in `s`, leaves `s'`: it has returned the given value, or was stopped there. -/
def Leaves (p : Prog σ ε α) (s : σ) : Option α → σ → Prop
  | none, s' => Stops p s s'
  | some a, s' => p.run s = (.ok a, s')

lemma Leaves.stops {o : Option α} (h : Leaves p s o s') : Stops p s s' := by
  cases o with
  | none => exact h
  | some a => exact stops_of_run h

lemma leaves_ret {a : α} {o : Option α} (h : Leaves (ret a : Prog σ ε α) s o s') :
    s' = s ∧ ∀ b ∈ o, b = a := by
  cases o with
  | none => exact ⟨h, by simp⟩
  | some b =>
    cases h
    exact ⟨rfl, fun b hb => (Option.some.inj hb).symm⟩

lemma leaves_throw {e : ε} {o : Option α} (h : Leaves (throw e : Prog σ ε α) s o s') :
    s' = s ∧ o = none := by
  cases o with
  | none => exact ⟨h, rfl⟩
  | some b => cases h

/-- A sequence is stopped in its first part, or leaves what its second part leaves. -/
lemma leaves_bind {o : Option β} (h : Leaves (p.bind f) s o s') :
    (o = none ∧ Stops p s s') ∨ ∃ a t, p.run s = (.ok a, t) ∧ Leaves (f a) t o s' := by
  cases o with
  | none =>
    obtain h | ⟨a, t, hrun, h⟩ := Prog.stops_bind.mp h
    · exact Or.inl ⟨rfl, h⟩
    · exact Or.inr ⟨a, t, hrun, h⟩
  | some b => exact Or.inr (run_bind_eq_ok.mp h)

lemma ReadOnly.leaves_bind (hp : ReadOnly p) {o : Option β} (h : Leaves (p.bind f) s o s') :
    (o = none ∧ s' = s) ∨ ∃ a, p.run s = (.ok a, s) ∧ Leaves (f a) s o s' := by
  obtain ⟨ho, h⟩ | ⟨a, t, hrun, h⟩ := Prog.leaves_bind h
  · exact Or.inl ⟨ho, hp _ _ h⟩
  · have ht := hp.run hrun
    exact Or.inr ⟨a, ht ▸ hrun, ht ▸ h⟩

/-- A part whose result is only passed on. -/
lemma leaves_bind_ret {g : α → β} {o : Option β} (h : Leaves (p.bind fun a => ret (g a)) s o s') :
    ∃ o', Leaves p s o' s' ∧ ∀ b ∈ o, ∃ a, o' = some a ∧ b = g a := by
  obtain ⟨ho, h⟩ | ⟨a, t, hrun, h⟩ := leaves_bind h
  · exact ⟨none, h, by simp [ho]⟩
  · obtain ⟨ht, hb⟩ := leaves_ret h
    exact ⟨some a, ht ▸ hrun, fun b hmem => ⟨a, rfl, hb b hmem⟩⟩

end Prog

end Codey
